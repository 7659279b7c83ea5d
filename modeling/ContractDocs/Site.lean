import ContractDocs.Failure
import ContractDocs.Host.Basic
import ContractDocs.Page

/-! Writing the pages of a project. -/

namespace ContractDocs

/-- Accepts a template if something can be filled in. -/
def checkTemplate (path : Path) (template : String) : Except Failure String :=
  if Text.contains template placeholderOpening then .ok template else .error (.template path)

namespace Site

/-- The files to write with their contents: a page for each contract in their order, and
then the page that lists them. -/
def pages (site : Site) (out : Path) : List (Path × String) :=
  site.contracts.map (fun c => (out.join ⟨c.pageName⟩, site.render c)) ++
    if site.settings.output.writeIndex then [(out.join ⟨indexPage⟩, site.renderIndex)] else []

/-- What is logged before the pages are written. -/
def pagesLog (site : Site) (out : Path) : List LogLine :=
  site.contracts.flatMap site.renderLog ++
    (site.pages out).map fun (path, _) => ⟨.debug, "Writing " ++ path.text⟩

/-- The first failure in the order of the pages. -/
def outcome (paths : List Path) (outcomes : List (Except FileError Unit)) :
    Except Failure Unit :=
  (paths.zip outcomes).forM fun (path, o) => Failure.onFile path o

end Site

variable {m : Type → Type} [Monad m] [Host m]

/-- Loads a page template, or takes the built-in one. -/
def loadTemplate : Option Path → ExceptT Failure m String
  | none => return defaultTemplate
  | some path => do
    let text ← ExceptT.mk (Failure.onFile path <$> Host.readText path)
    ExceptT.mk (pure (checkTemplate path text))

/-- Writes all pages into a directory and returns how many there are. One that cannot be
written does not keep the others from being written. -/
def Site.write (site : Site) (out : Path) : ExceptT Failure m Nat := do
  ExceptT.mk (Failure.onFile out <$> Host.makeDirectories out)
  Host.logAll (m := m) (site.pagesLog out)
  let pages := site.pages out
  let outcomes ← Host.writeAll (m := m) pages
  ExceptT.mk (pure (outcome (pages.map (·.1)) outcomes))
  Host.logAll (m := m)
    [⟨.info, "Wrote " ++ toString pages.length ++ " pages to " ++ out.text⟩]
  return pages.length

end ContractDocs
