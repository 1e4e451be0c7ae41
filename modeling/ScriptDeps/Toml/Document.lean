import ScriptDeps.Toml.Line

/-! # TOML documents

    A document makes up one table: the keys before the first header belong to
    it, and those after a header to the table of that header. -/

namespace ScriptDeps
namespace Toml

/-! ## Section 1: Lines to tables -/

/-- The table that lines make up, and the header they stand under. -/
structure Document where
  rows   : Rows := []
  header : List Text := []

namespace Document

/-- Adds the next line. -/
def add? (d : Document) : Line → Option Document
  | .header k => (d.rows.addHeader? k).map fun rows => ⟨rows, k.path ++ [k.name]⟩
  | .element k => (d.rows.addElement? k).map fun rows => ⟨rows, k.path ++ [k.name]⟩
  | .pair k v =>
      (d.rows.descend false (fun _ inner => inner.addKey? k v) d.header false).map fun rows =>
        { d with rows }

/-- The table that lines make up. -/
def ofLines? (ls : List Line) : Option Rows :=
  (ls.foldlM add? {}).map (·.rows)

end Document

/-! ## Section 2: Texts -/

/-- The text with every line ended by a line feed alone, the last one too. -/
def unixLines : Text → Text
  | '\r' :: '\n' :: rest => '\n' :: unixLines rest
  | c :: rest => c :: unixLines rest
  | [] => ['\n']

/-- Drops the mark that says in which order bytes stand. -/
def dropMark : Text → Text
  | '\ufeff' :: rest => rest
  | t => t

/-- The table that a text holds. -/
def ofText? (t : Text) : Option Rows :=
  let t := unixLines (dropMark t)
  (Line.many? (t.length + 1) t).bind Document.ofLines?

end Toml
end ScriptDeps
