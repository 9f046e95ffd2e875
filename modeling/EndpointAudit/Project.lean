import EndpointAudit.Json.Printer
import EndpointAudit.Json.Record

namespace EndpointAudit

structure SourceFile where
  path : String
  size : Nat
  kind : String
deriving DecidableEq, Repr

structure Project where
  kind : String
  root : String
  files : List SourceFile
deriving DecidableEq, Repr

def SourceFile.toJson (f : SourceFile) : Json :=
  .object [("path",.text f.path),("size_bytes",.ofNat f.size),("file_type",.text f.kind)]

open Json in
/-- The size may also stand under its older key. -/
def SourceFile.record : Record SourceFile :=
  Record.constant SourceFile.mk
    |>.required "path" Decoder.text
    |>.requiredAs "size_bytes" "size" Decoder.word64
    |>.required "file_type" Decoder.text

namespace Project

def unknownKind : String := "Unknown"

/-- A project about which nothing is known but its root. -/
def atRoot (root : String) : Project :=
  { kind := unknownKind, root, files := [] }

def toJson (p : Project) : Json :=
  .object [("project_type",.text p.kind),("root_path",.text p.root),
    ("files",.array (p.files.map SourceFile.toJson))]

open Json in
def record : Record Project :=
  Record.constant Project.mk
    |>.required "project_type" Decoder.text
    |>.required "root_path" Decoder.text
    |>.required "files" (Decoder.list SourceFile.record.decoder)

end Project

end EndpointAudit
