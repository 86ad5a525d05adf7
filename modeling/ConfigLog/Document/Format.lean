import ConfigLog.Files.Path
import ConfigLog.Json.Read
import ConfigLog.Text.Blank
import ConfigLog.Text.Quoted
import ConfigLog.Toml.Read
import ConfigLog.Yaml.Read

set_option autoImplicit false

/-! # Document formats

The formats that a configuration document may have, each known by the extensions of its files, and
the reading of a document in one of them.
-/

namespace ConfigLog.Document

/-- Why there is no tree. -/
inductive DocumentError where
  /-- The content is not well formed. -/
  | malformed
  /-- No format has this extension; a path without one is given whole. -/
  | unsupported (extension : String)
  /-- The file cannot be read. -/
  | unreadable
  deriving DecidableEq, Repr

/-- The wording of the error, as far as it is this library's own. -/
def DocumentError.message : DocumentError → Option String
  | unsupported e => some ("unsupported document format: " ++ Text.quote e)
  | malformed => none
  | unreadable => none

/-- The formats in the order in which they are tried. -/
inductive Format where
  | yaml
  | json
  | toml
  deriving DecidableEq, Repr

namespace Format

/-- All formats. -/
def all : List Format := [yaml, json, toml]

/-- The extensions of the format's files. -/
def extensions : Format → List String
  | yaml => ["yaml", "yml"]
  | json => ["json"]
  | toml => ["toml"]

/-- The name of the format in records. -/
def name : Format → String
  | yaml => "Yaml"
  | json => "Json"
  | toml => "Toml"

/-- The format with an extension, in any case. -/
def ofExtension? (extension : String) : Option Format :=
  all.find? fun f => f.extensions.any fun e => Text.equalIgnoringCase e extension

/-- The format of a file by the extension of its path. -/
def ofPath (path : String) : Except DocumentError Format :=
  match Files.Path.extension? path with
  | none => .error (.unsupported path)
  | some e =>
    match ofExtension? e with
    | some f => .ok f
    | none => .error (.unsupported e)

/-- The tree of a text in the format, or `none` when it is not well formed. -/
def tree? (f : Format) (text : String) : Option Node :=
  match f with
  | yaml => Yaml.read text
  | json => Json.read text
  | toml => Toml.read text

/-- The tree of a text in the format. -/
def read (f : Format) (text : String) : Except DocumentError Node :=
  match f.tree? text with
  | some n => .ok n
  | none => .error .malformed

/-- The tree of the bytes of a document; they have to be UTF-8. -/
def readBytes (f : Format) (bytes : ByteArray) : Except DocumentError Node :=
  match String.fromUTF8? bytes with
  | some text => f.read text
  | none => .error .malformed

end Format

end ConfigLog.Document
