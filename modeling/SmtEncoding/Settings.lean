import SmtEncoding.Options
import SmtEncoding.Solver.Capabilities
import SmtEncoding.Toml.Flag

/-!
# Settings in documents

Options and capabilities are read from TOML documents and written back.  A document that does not
set a field leaves it at its default.
-/

namespace SmtEncoding

/-! ## Options -/

namespace Options

/-- The field of a document that allows the creation of variables. -/
def field : String := "create_variables"

/-- Reads options from a document. -/
def ofToml (source : String) : Except Toml.FlagError Options :=
  (Toml.readFlag field ({} : Options).createVariables source).map (⟨·⟩)

/-- The document that sets the options. -/
def toToml (o : Options) : String := Toml.writeFlag field o.createVariables

/-- Why a file does not give options. -/
inductive FileError where
  /-- The file is missing or holds no text. -/
  | unreadable
  /-- The text of the file gives no options. -/
  | invalid (cause : Toml.FlagError)
deriving DecidableEq, Repr

/-- The text of an error about the file at a path. -/
def FileError.message (path : String) : FileError → String
  | unreadable => "reading translator options from " ++ path
  | invalid _ => "parsing translator options in " ++ path

/-- Reads options from the content of a file, or from none if the file is missing. -/
def ofFile (content : Option ByteArray) : Except FileError Options :=
  match content.bind String.fromUTF8? with
  | none => .error .unreadable
  | some source => (ofToml source).mapError .invalid

end Options

/-! ## Capabilities -/

namespace Capabilities

/-- The field of a document that grants rationals. -/
def field : String := "rationals"

/-- Reads capabilities from a document. -/
def ofToml (source : String) : Except Toml.FlagError Capabilities :=
  (Toml.readFlag field ({} : Capabilities).rationals source).map (⟨·⟩)

/-- The document that sets the capabilities. -/
def toToml (c : Capabilities) : String := Toml.writeFlag field c.rationals

end Capabilities

/-! ## Tests -/

section Tests

example : (Options.ofToml Options.strict.toToml).toOption = some .strict := by decide +kernel
example : (Capabilities.ofToml "").toOption = some {} := by decide +kernel

end Tests

end SmtEncoding
