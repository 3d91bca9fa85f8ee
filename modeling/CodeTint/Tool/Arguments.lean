/-
# What a tool is told on its command line

Both tools are told the language and that a fragment of HTML is wanted.  Parameters follow in the
order of their keys:

* `pygmentize` takes them all behind one `-O`, as `key=value` with commas between;
* `highlight` takes each as an option of its own, `--key=value`, and just `--key` where the value is
  `true`.
-/
import CodeTint.Colorizer
import CodeTint.Dict

namespace CodeTint

/-- The parameters of a tool, as a list; no parameters are an empty one. -/
def paramEntries (params : Option (Dict String)) : List (String × String) :=
  match params with
  | some d => d.entries
  | none => []

/-- A parameter as `key=value`. -/
def pairText (e : String × String) : String := e.1 ++ "=" ++ e.2

/-- A parameter as an option of its own. -/
def flagText (e : String × String) : String :=
  if e.2 = "true" then "--" ++ e.1 else "--" ++ pairText e

/-- **The arguments for colorizing a language.** -/
def Tool.arguments (t : Tool) (language : String) (params : Option (Dict String)) : List String :=
  match t with
  | .pygmentize =>
    ["-l", language, "-f", "html"] ++
      match paramEntries params with
      | [] => []
      | es => ["-O", ",".intercalate (es.map pairText)]
  | .highlight =>
    ["--syntax", language, "--out-format", "html", "--fragment"] ++
      (paramEntries params).map flagText

end CodeTint
