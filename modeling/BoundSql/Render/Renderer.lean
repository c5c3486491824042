import BoundSql.Render.Statement

/-!
# Renderers

A `Renderer` holds a statement with all that its text depends on, and writes it as often as it is
asked to. It keeps the names that its last run recorded.
-/

namespace BoundSql

/-- Forgets the names recorded so far. -/
def Render.clear : Render Unit := set ([] : List String)

/-- A statement to be written, and the names recorded by the last run. -/
structure Renderer where
  statement : Statement
  values : Bindings
  settings : RenderSettings
  dialect : Dialect
  used : List String := []

namespace Renderer

/-- What the text depends on beside the tree. -/
def context (w : Renderer) : RenderContext :=
  { dialect := w.dialect
    settings := w.settings
    params := w.statement.params
    values := w.values }

/-- One run, behind whatever was recorded before. -/
def run (w : Renderer) : Render String := do
  Render.clear
  let phrase ← w.context.body w.statement.body
  return String.ofList (phrase.write w.settings.pretty)

/-- The answer of a run, and the renderer behind it. -/
def render (w : Renderer) : Except SqlError String × Renderer :=
  let (answer, used) := w.run.run.run w.used
  (answer, { w with used })

end Renderer

end BoundSql
