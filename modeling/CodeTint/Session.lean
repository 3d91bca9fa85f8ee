/-
# Colorizing one document, or many

`Session.run` colorizes a document with a registry that is kept from run to run; each run starts the
registry anew, so what went before does not show.  `colorizeOnce` makes a registry for one document.
-/
import CodeTint.Document
import CodeTint.Registry

namespace CodeTint

open Highlight (Library)

variable [Library]

/-- One who colorizes documents with one set of options. -/
abbrev Session := Registry

/-- A session that has not run yet, with the store that it shares if it shares one. -/
def Session.make (store : Option Library.Store) (options : Options) (ambient : Option String) :
    Session :=
  Registry.make store options ambient

/-- A session that has not run yet and shares no store. -/
def Session.create (options : Options) (ambient : Option String) : Session :=
  Registry.create options ambient

/-- A session that has not run yet and shares a store. -/
def Session.withStore (options : Options) (ambient : Option String) (store : Library.Store) :
    Session :=
  Registry.withStore options ambient store

variable [Programs]

/-- **One run on a document.** -/
def Session.run (host : Host) (ambient : Option String) (doc : List Char) (s : Session) :
    Except Error Document.Colorized × Session :=
  (Document.colorize (Registry.engine host) s.options doc).outcome (s.startRun ambient)

/-- **A document colorized with nothing kept.** -/
def colorizeOnce (host : Host) (options : Options) (doc : List Char) :
    Except Error Document.Colorized :=
  ((Session.create options host.searchPath).run host host.searchPath doc).1

end CodeTint
