import SchemaEditor.Toml.Expression

/-!
# Documents

Reading a whole document: its expressions put their values into the table that the last header
opened. A byte order mark may stand in front.
-/

namespace SchemaEditor.Toml

/-- A document under construction. -/
structure Document where
  fields : Fields
  /-- The path to the table that was opened last. -/
  place : List String

namespace Document

/-- The document without fields. -/
def empty : Document := ⟨[], []⟩

/-- Takes an expression. -/
def take (d : Document) : Expression → Option Document
  | .entry p v => (d.fields.addValueAt d.place p.path p.key v).map fun fields => { d with fields }
  | .header p => (d.fields.openTable p.path p.key).map fun fields => ⟨fields, p.path ++ [p.key]⟩
  | .elementHeader p =>
    (d.fields.openElement p.path p.key).map fun fields => ⟨fields, p.path ++ [p.key]⟩

end Document

/-- Drops a byte order mark. -/
def dropMark : List Char → List Char
  | '\ufeff' :: cs => cs
  | cs => cs

/-- The fields of a document. -/
def parse (s : String) : Option (List (String × Toml)) := do
  let expressions ← expressions? (dropMark s.toList)
  let document ← expressions.foldlM Document.take .empty
  return finishFields document.fields

end SchemaEditor.Toml
