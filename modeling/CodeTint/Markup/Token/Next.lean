/-
# The next token of a document

What a `<` begins depends on the text it stands in, and that is the `Mode`: ordinary content, the
text of an element that holds only text, a script, the rest of the document, or a CDATA section.
`next` reads one token in a mode and says in which mode reading goes on; the mode after a start tag
is only a proposal, for it is the element that decides (`Context.onStart`).

* In **content** a `<` begins markup if a letter, `!` or `?` follows, or a slash with something
  behind it.  Otherwise it is text.
* In a **text element** only the end tag of that element is markup.
* In a **script** the same holds, but not while a `<script` inside a `<!--` is open.
* A **CDATA section** ends at the first `]]>`.

**Nothing is lost**: the token's own characters and the rest make up the input (`next_append`), and
the rest is shorter (`next_rest_length`).
-/
import CodeTint.Markup.Token.Tag

namespace CodeTint.Markup

open CodeTint.Text

/-- The text that a `<` is read in. -/
inductive Mode where
  | content
  | textOf (key : List Char)
  | script
  | plain
  | cdata
  deriving DecidableEq, Repr

/-- A token, the mode that follows, and the text that follows. -/
structure Step where
  token : Token
  mode : Mode
  rest : List Char

/-! ## 1. Cutting at a place -/

/-- **The text up to the first place that `p` holds of**, and the text from there on. -/
def breakAt (p : List Char → Bool) : List Char → List Char × List Char
  | [] => ([], [])
  | c :: s => if p (c :: s) then ([], c :: s) else let (a, b) := breakAt p s; (c :: a, b)

theorem breakAt_append (p : List Char → Bool) (s : List Char) :
    (breakAt p s).1 ++ (breakAt p s).2 = s := by
  fun_induction breakAt p s <;> simp_all

/-- The text up to the first `>` and with it, and what follows. -/
def throughGreater (s : List Char) : List Char × List Char :=
  let r := s.dropWhile (· != '>')
  (s.takeWhile (· != '>') ++ r.take 1, r.drop 1)

theorem throughGreater_append (s : List Char) :
    (throughGreater s).1 ++ (throughGreater s).2 = s := by
  simp only [throughGreater, List.append_assoc, List.take_append_drop,
    List.takeWhile_append_dropWhile]

/-! ## 2. Tags -/

/-- The tag whose name begins `s`, behind `<`. -/
def startStep (s : List Char) : Step :=
  match rest? (s.dropWhile (!isNameEnd ·)) with
  | none => ⟨.blank ('<' :: s), .content, []⟩
  | some t =>
    ⟨.start ⟨'<' :: consumed s t.after, s.takeWhile (!isNameEnd ·), t.attrs, t.selfClosing⟩,
      .content, t.after⟩

/-- The end tag whose name begins `s`, behind `</`. -/
def endStep (s : List Char) : Step :=
  match rest? (s.dropWhile (!isNameEnd ·)) with
  | none => ⟨.blank ('<' :: '/' :: s), .content, []⟩
  | some t =>
    ⟨.finish ('<' :: '/' :: consumed s t.after) (s.takeWhile (!isNameEnd ·)), .content, t.after⟩

theorem startStep_append (s : List Char) :
    (startStep s).token.raw ++ (startStep s).rest = '<' :: s := by
  unfold startStep
  split
  · simp [Token.raw]
  · next t ht =>
    have h := consumed_append ((rest?_suffix ht).trans (List.dropWhile_suffix _))
    simp [Token.raw, h]

theorem endStep_append (s : List Char) :
    (endStep s).token.raw ++ (endStep s).rest = '<' :: '/' :: s := by
  unfold endStep
  split
  · simp [Token.raw]
  · next t ht =>
    have h := consumed_append ((rest?_suffix ht).trans (List.dropWhile_suffix _))
    simp [Token.raw, h]

/-! ## 3. Comments and their like -/

/-- A place where a comment closes. -/
def closesComment (s : List Char) : Bool :=
  "-->".toList.isPrefixOf s || "--!>".toList.isPrefixOf s

/-- How long the closing is, at such a place. -/
def commentCloseLength (s : List Char) : Nat := if "-->".toList.isPrefixOf s then 3 else 4

/-- **The comment whose text begins `s`**, behind `<!--`.  It may close at once with `>` or `->`,
and the end of the document closes it too. -/
def commentStep : List Char → Step
  | '>' :: s => ⟨.comment "<!-->".toList, .content, s⟩
  | '-' :: '>' :: s => ⟨.comment "<!--->".toList, .content, s⟩
  | s =>
    let (text, r) := breakAt closesComment s
    let n := commentCloseLength r
    ⟨.comment ('<' :: '!' :: '-' :: '-' :: (text ++ r.take n)), .content, r.drop n⟩

/-- What begins with `lead` and is no comment proper, up to the next `>`. -/
def bogusStep (lead s : List Char) : Step :=
  ⟨.comment (lead ++ (throughGreater s).1), .content, (throughGreater s).2⟩

/-- What `<!` begins if it is no comment proper. -/
def declarationStep (cdataAllowed : Bool) (s : List Char) : Step :=
  if lower (s.take 7) = "doctype".toList then
    ⟨.doctype ('<' :: '!' :: (throughGreater s).1), .content, (throughGreater s).2⟩
  else if cdataAllowed && "[CDATA[".toList.isPrefixOf s then
    ⟨.blank ('<' :: '!' :: s.take 7), .cdata, s.drop 7⟩
  else bogusStep ['<', '!'] s

theorem commentStep_append (s : List Char) :
    (commentStep s).token.raw ++ (commentStep s).rest = '<' :: '!' :: '-' :: '-' :: s := by
  unfold commentStep
  split
  · rfl
  · rfl
  · simp [Token.raw, breakAt_append]

theorem bogusStep_append (lead s : List Char) :
    (bogusStep lead s).token.raw ++ (bogusStep lead s).rest = lead ++ s := by
  simp [bogusStep, Token.raw, throughGreater_append]

theorem declarationStep_append (b : Bool) (s : List Char) :
    (declarationStep b s).token.raw ++ (declarationStep b s).rest = '<' :: '!' :: s := by
  unfold declarationStep
  split
  · simp [Token.raw, throughGreater_append]
  · split
    · simp [Token.raw]
    · exact bogusStep_append _ _

/-! ## 4. Content -/

/-- Whether a `<` begins markup, going by what follows it. -/
def opensMarkup : List Char → Bool
  | '!' :: _ => true
  | '?' :: _ => true
  | '/' :: _ :: _ => true
  | c :: _ => c.isAlpha
  | [] => false

/-- **The markup that `<` begins**, going by what follows it. -/
def markupStep (cdataAllowed : Bool) : List Char → Step
  | '!' :: '-' :: '-' :: s => commentStep s
  | '!' :: s => declarationStep cdataAllowed s
  | '?' :: s => bogusStep ['<', '?'] s
  | '/' :: '>' :: s => ⟨.blank "</>".toList, .content, s⟩
  | '/' :: c :: s => if c.isAlpha then endStep (c :: s) else bogusStep ['<', '/'] (c :: s)
  | s => startStep s

theorem markupStep_append (b : Bool) (s : List Char) :
    (markupStep b s).token.raw ++ (markupStep b s).rest = '<' :: s := by
  unfold markupStep
  split
  · exact commentStep_append _
  · exact declarationStep_append _ _
  · exact bogusStep_append _ _
  · rfl
  · split
    · exact endStep_append _
    · exact bogusStep_append _ _
  · exact startStep_append _

/-! ## 5. Text elements and scripts -/

/-- Whether `s` begins with `key`, up to case, as the whole name of a tag. -/
def beginsName (key s : List Char) : Bool :=
  lower (s.take key.length) == key &&
    match s.drop key.length with
    | c :: _ => isNameEnd c
    | [] => false

/-- A place where the end tag of the element `key` stands. -/
def endsElement (key : List Char) : List Char → Bool
  | '<' :: '/' :: s => beginsName key s
  | _ => false

/-- How deep a script is in escapes: not at all, in `<!--`, or in a `<script` inside of that.  The
number counts the dashes just read. -/
inductive Escape where
  | none
  | comment (dashes : Nat)
  | script (dashes : Nat)

/-- The name whose tags a script watches. -/
def scriptKey : List Char := "script".toList

/-- **The escape after one more character**, with a look at what follows it. -/
def Escape.after : Escape → Char → List Char → Escape
  | .none, '<', s => if "!--".toList.isPrefixOf s then .comment 0 else .none
  | .none, _, _ => .none
  | .comment _, '<', s => if beginsName scriptKey s then .script 0 else .comment 0
  | .comment n, '-', _ => .comment (n + 1)
  | .comment n, '>', _ => if 2 ≤ n then .none else .comment 0
  | .comment _, _, _ => .comment 0
  | .script _, '<', s => if endsElement scriptKey ('<' :: s) then .comment 0 else .script 0
  | .script n, '-', _ => .script (n + 1)
  | .script n, '>', _ => if 2 ≤ n then .none else .script 0
  | .script _, _, _ => .script 0

/-- Whether the end tag of the script counts. -/
def Escape.isOpen : Escape → Bool
  | .script _ => false
  | _ => true

/-- The text of a script up to its end tag, and what follows. -/
def breakScript : Escape → List Char → List Char × List Char
  | _, [] => ([], [])
  | e, c :: s =>
    if e.isOpen && endsElement scriptKey (c :: s) then ([], c :: s)
    else let (a, b) := breakScript (e.after c s) s; (c :: a, b)

theorem breakScript_append (e : Escape) (s : List Char) :
    (breakScript e s).1 ++ (breakScript e s).2 = s := by
  fun_induction breakScript e s <;> simp_all

/-! ## 6. One step -/

/-- A place in content where markup begins. -/
def isMarkup : List Char → Bool
  | '<' :: s => opensMarkup s
  | _ => false

/-- A place where a CDATA section ends. -/
def endsCdata (s : List Char) : Bool := "]]>".toList.isPrefixOf s

/-- **The token that begins with `c`**, and how reading goes on.  `cdataAllowed` says whether the
element around it is foreign. -/
def next (cdataAllowed : Bool) (mode : Mode) (c : Char) (s : List Char) : Step :=
  match mode with
  | .content =>
    if isMarkup (c :: s) then markupStep cdataAllowed s
    else ⟨.text (c :: (breakAt isMarkup s).1), .content, (breakAt isMarkup s).2⟩
  | .textOf key =>
    if endsElement key (c :: s) then endStep (s.drop 1)
    else ⟨.text (c :: (breakAt (endsElement key) s).1), mode, (breakAt (endsElement key) s).2⟩
  | .script =>
    if endsElement scriptKey (c :: s) then endStep (s.drop 1)
    else
      ⟨.text (c :: (breakScript (Escape.none.after c s) s).1), mode,
        (breakScript (Escape.none.after c s) s).2⟩
  | .plain => ⟨.text (c :: s), .plain, []⟩
  | .cdata =>
    if endsCdata (c :: s) then ⟨.blank ((c :: s).take 3), .content, (c :: s).drop 3⟩
    else ⟨.text (c :: (breakAt endsCdata s).1), mode, (breakAt endsCdata s).2⟩

theorem isMarkup_head {c : Char} {s : List Char} (h : isMarkup (c :: s) = true) : c = '<' := by
  unfold isMarkup at h
  split at h
  · next h' => cases h'; rfl
  · cases h

theorem endsElement_head {key s : List Char} {c : Char} (h : endsElement key (c :: s) = true) :
    c :: s = '<' :: '/' :: s.drop 1 := by
  unfold endsElement at h
  split at h
  · next h' => cases h'; rfl
  · cases h

/-- **Nothing is lost in a step.** -/
theorem next_append (b : Bool) (m : Mode) (c : Char) (s : List Char) :
    (next b m c s).token.raw ++ (next b m c s).rest = c :: s := by
  unfold next
  split
  · split
    · next h => rw [isMarkup_head h]; exact markupStep_append b s
    · simp [Token.raw, breakAt_append]
  · split
    · next h => rw [endsElement_head h]; exact endStep_append _
    · simp [Token.raw, breakAt_append]
  · split
    · next h => rw [endsElement_head h]; exact endStep_append _
    · simp [Token.raw, breakScript_append]
  · simp [Token.raw]
  · split
    · exact List.take_append_drop 3 (c :: s)
    · simp [Token.raw, breakAt_append]

/-- A step reads something: every token begins with the character it was read at. -/
theorem next_raw_ne_nil (b : Bool) (m : Mode) (c : Char) (s : List Char) :
    (next b m c s).token.raw ≠ [] := by
  have hs (t : List Char) : (startStep t).token.raw ≠ [] := by
    unfold startStep; split <;> simp [Token.raw]
  have he (t : List Char) : (endStep t).token.raw ≠ [] := by
    unfold endStep; split <;> simp [Token.raw]
  have hb (x : Char) (l t : List Char) : (bogusStep (x :: l) t).token.raw ≠ [] := by
    simp [bogusStep, Token.raw]
  have hc (t : List Char) : (commentStep t).token.raw ≠ [] := by
    unfold commentStep; split <;> simp [Token.raw]
  have hd (t : List Char) : (declarationStep b t).token.raw ≠ [] := by
    unfold declarationStep
    split
    · simp [Token.raw]
    · split
      · simp [Token.raw]
      · exact hb _ _ _
  have hm (t : List Char) : (markupStep b t).token.raw ≠ [] := by
    unfold markupStep
    split
    · exact hc _
    · exact hd _
    · exact hb _ _ _
    · simp [Token.raw]
    · split
      · exact he _
      · exact hb _ _ _
    · exact hs _
  unfold next
  split
  · split
    · exact hm s
    · simp [Token.raw]
  · split
    · exact he _
    · simp [Token.raw]
  · split
    · exact he _
    · simp [Token.raw]
  · simp [Token.raw]
  · split <;> simp [Token.raw]

/-- **Each step leaves less to read.** -/
theorem next_rest_length (b : Bool) (m : Mode) (c : Char) (s : List Char) :
    (next b m c s).rest.length < (c :: s).length := by
  have h := congrArg List.length (next_append b m c s)
  have hp := List.length_pos_iff.2 (next_raw_ne_nil b m c s)
  rw [List.length_append] at h
  omega

end CodeTint.Markup
