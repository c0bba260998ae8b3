/-
Pages: a finished tree of elements with the order of its style sheet and its settings, and the text
of the page: a fixed head with the style sheet embedded, then the markup.
-/
import LayerPage.Configuration
import LayerPage.Markup

namespace LayerPage

/-- A converted document, ready to be written. -/
structure Page (α : Type) where
  tree : ElementTree α
  root : ElementId
  /-- The elements whose rules make up the style sheet, in order. -/
  stylesheetOrder : List ElementId
  config : Configuration

namespace Page

variable {α : Type}

/-- Title of a page whose settings name none. -/
def defaultTitle : String := "Untitled"

def doctype : String :=
  "<!DOCTYPE html PUBLIC \"-//W3C//DTD XHTML 1.0 Transitional//EN\" "
    ++ "\"http://www.w3.org/TR/xhtml1/DTD/xhtml1-transitional.dtd\">"

/-- The rules of the page that have something to write. -/
def rules (page : Page α) : List StyleRule :=
  (page.stylesheetOrder.filterMap fun id => (page.tree.get? id).map (·.style)).filter (·.isWritten)

def stylesheet (page : Page α) : String :=
  String.join (page.rules.map (·.toCss))

/-- The remark that the settings ask for. -/
def remark (page : Page α) : Markup.Remark :=
  match page.config.get? Configuration.commentTemplate with
  | some template => .ofTemplate template
  | none => {}

def body (page : Page α) : String :=
  match page.tree.markup? page.root with
  | some markup => markup.render page.remark 0
  | none => ""

def title (page : Page α) : String :=
  (page.config.get? Configuration.title).getD defaultTitle

def render (page : Page α) : String :=
  doctype ++ "\n"
    ++ "<html xmlns=\"http://www.w3.org/1999/xhtml\">\n"
    ++ "<head>\n"
    ++ "\t<title>" ++ Markup.escape page.title ++ "</title>\n"
    ++ "\t<style type=\"text/css\">\n"
    ++ page.stylesheet
    ++ "\t</style>\n"
    ++ "</head>\n"
    ++ page.body
    ++ "</html>"

end Page

end LayerPage
