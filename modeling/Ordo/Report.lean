import Ordo.Value.Shown

namespace Ordo

/-!
# Reports

* `Report`, `Report.build` — a page that shows a program and what was found out about it.
-/

/-- A page and where it is kept. -/
structure Report where
  path : String
  html : String
  encoding : String
  deriving DecidableEq, Repr

/-- The page with the texts of a program and its results. -/
def Report.ofTexts (pseudocode result : String) : Report where
  path := "/mnt/data/analysis_report.html"
  html := Value.joined "\n    " [
    "", "<html><body>", "<h1>Reporte de Análisis</h1>", "<h2>Pseudocódigo</h2>",
    "<pre>" ++ pseudocode ++ "</pre>", "<h2>Resultados</h2>",
    "<pre>" ++ result ++ "</pre>", "</body></html>b", ""]
  encoding := "utf-8"

/-- The page for a program and its results, which have to have texts. -/
def Report.build (pseudocode result : Value) : Except AccessError Report := do
  return .ofTexts (← pseudocode.shown) (← result.shown)

end Ordo
