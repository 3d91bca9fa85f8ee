/-
# The options of a run

Which dialect to write, who colorizes which language and with what parameters, which elements are
blocks, and how external tools are found and for how long they may run.

**Routing**: a language goes to the colorizer that `colorizers` names for it, else to the default
one.  The names are not checked here; a name that is none comes up when a block asks for it.
-/
import CodeTint.Colorizer
import CodeTint.Dict
import CodeTint.Duration
import CodeTint.Markup.Dialect

namespace CodeTint

/-- The options of a run.  Without a search path the one of the environment is used, without a
timeout a tool may run for ever. -/
structure Options where
  dialect : Markup.Dialect := .html
  defaultColorizer : String := Colorizer.builtin.name
  colorizers : Dict String := .empty
  params : Dict (Dict String) := .empty
  outsidePre : Bool := false
  searchPath : Option String := none
  timeout : Option Duration := none

namespace Options

instance : Inhabited Options := ⟨{}⟩

/-- **The name of the colorizer that a language is routed to.** -/
def colorizerFor (o : Options) (language : String) : String :=
  (o.colorizers.get? language).getD o.defaultColorizer

/-- The parameters for a colorizer. -/
def paramsFor (o : Options) (c : Colorizer) : Option (Dict String) := o.params.get? c.name

/-- Routes one language to a colorizer. -/
def withColorizer (o : Options) (language colorizer : String) : Options :=
  { o with colorizers := o.colorizers.insert language colorizer }

/-- Sets one parameter for a colorizer. -/
def withParam (o : Options) (colorizer key value : String) : Options :=
  let old := (o.params.get? colorizer).getD .empty
  { o with params := o.params.insert colorizer (old.insert key value) }

/-- Which elements are blocks: those inside a `pre`, or all. -/
def blocks (o : Options) : Markup.Selector :=
  if o.outsidePre then Markup.Selector.named "code" else Markup.Selector.within "pre" "code"

end Options

end CodeTint
