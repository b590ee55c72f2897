import Restyle.Bootstrap.Rules
import Restyle.Catalog

namespace Restyle.Bootstrap

def responsiveStems : List String :=
  ["d", "flex", "justify-content", "align-items", "align-content", "align-self", "order", "float",
   "object-fit", "m", "mt", "mb", "ms", "me", "mx", "my", "p", "pt", "pb", "ps", "pe", "px", "py",
   "gap", "row-gap", "column-gap", "container", "col", "row-cols", "offset", "g", "gx", "gy",
   "text", "sticky"]

def interactiveStems : List String :=
  ["link-offset", "link-opacity", "link-underline-opacity"]

def plainStems : List String :=
  ["align", "row", "text-bg", "text-opacity", "text-decoration", "fw", "fst", "fs", "lh",
   "font-monospace", "lead", "list-unstyled", "link", "link-underline", "bg", "bg-opacity",
   "border", "border-top", "border-bottom", "border-start", "border-end", "border-opacity",
   "rounded", "rounded-top", "rounded-bottom", "rounded-start", "rounded-end", "w", "h", "mw",
   "mh", "vw", "vh", "min-vw", "min-vh", "position", "top", "bottom", "start", "end",
   "translate-middle", "fixed", "z", "shadow", "opacity", "overflow", "overflow-x", "overflow-y",
   "visible", "invisible", "visually-hidden", "user-select", "ratio", "vstack", "hstack",
   "stretched-link", "img-fluid", "clearfix"]

def stems : List Stem :=
  responsiveStems.map (⟨·, { responsive := true }⟩) ++
    interactiveStems.map (⟨·, { interactive := true }⟩) ++
    plainStems.map (⟨·, .plain⟩)

def vocabulary : Vocabulary := .ofStems stems

def same (step value : String) : String × Step := (step, { value })

/-- A step whose nearest Tailwind value has another size. -/
def near (step value : String) : String × Step := (step, { value, exact := false })

def negative (step value : String) : String × Step := (step, { value, negative := true })

def spacingScale : Scale := .ofEntries
  [same "0" "0", same "1" "1", same "2" "2", same "3" "4", same "4" "6", same "5" "12"]

def marginScale : Scale := .ofEntries
  [negative "n5" "12", negative "n4" "6", negative "n3" "4", negative "n2" "2", negative "n1" "1",
   same "0" "0", same "1" "1", same "2" "2", same "3" "4", same "4" "6", same "5" "12",
   same "auto" "auto"]

def borderWidthScale : Scale := .ofEntries
  [same "DEFAULT" "", same "0" "0", same "1" "", same "2" "2", same "3" "[3px]", same "4" "4",
   same "5" "[5px]"]

def borderRadiusScale : Scale := .ofEntries
  [same "DEFAULT" "md", same "0" "none", same "1" "", same "2" "md", same "3" "lg",
   same "4" "2xl", near "5" "3xl"]

def fontSizeScale : Scale := .ofEntries
  [near "1" "4xl", near "2" "3xl", near "3" "3xl", same "4" "2xl", same "5" "xl", same "6" "base"]

def lineHeightScale : Scale := .ofEntries
  [same "1" "none", same "base" "normal", same "lg" "loose", same "sm" "tight"]

def opacityScale : Scale := .ofEntries
  [same "0" "0", same "10" "10", same "25" "25", same "50" "50", same "75" "75", same "100" "100"]

def percentScale : Scale := .ofEntries
  [same "25" "1/4", same "50" "1/2", same "75" "3/4", same "100" "full", same "auto" "auto"]

def insetScale : Scale := .ofEntries
  [same "0" "0", same "50" "1/2", same "100" "full"]

def orderScale : Scale := .ofEntries
  [same "0" "none", same "1" "1", same "2" "2", same "3" "3", same "4" "4", same "5" "5",
   same "first" "first", same "last" "last"]

def zIndexScale : Scale := .ofEntries
  [same "n1" "[-1]", same "0" "0", same "1" "[1]", same "2" "[2]", same "3" "[3]"]

def linkOffsetScale : Scale := .ofEntries
  [near "1" "1", near "2" "2", near "3" "4"]

def underlineOpacityScale : Scale := .ofEntries
  [same "0" "transparent", same "10" "[color:color-mix(in_srgb,currentColor_10%,transparent)]",
   same "25" "[color:color-mix(in_srgb,currentColor_25%,transparent)]",
   same "50" "[color:color-mix(in_srgb,currentColor_50%,transparent)]",
   same "75" "[color:color-mix(in_srgb,currentColor_75%,transparent)]", same "100" "current"]

def scales : Dictionary Scale := .ofEntries
  [("spacing", spacingScale), ("margin", marginScale), ("border-width", borderWidthScale),
   ("border-radius", borderRadiusScale), ("font-size", fontSizeScale),
   ("line-height", lineHeightScale), ("opacity", opacityScale), ("percent", percentScale),
   ("inset", insetScale), ("order", orderScale), ("z-index", zIndexScale),
   ("link-offset", linkOffsetScale), ("underline-opacity", underlineOpacityScale)]

def colors : Dictionary Color := .ofEntries
  [("black", ⟨"black", none⟩),
   ("danger", ⟨"red", some 600⟩),
   ("dark", ⟨"gray", some 900⟩),
   ("info", ⟨"cyan", some 400⟩),
   ("light", ⟨"gray", some 100⟩),
   ("primary", ⟨"blue", some 600⟩),
   ("secondary", ⟨"gray", some 600⟩),
   ("success", ⟨"green", some 600⟩),
   ("transparent", ⟨"transparent", none⟩),
   ("warning", ⟨"yellow", some 400⟩),
   ("white", ⟨"white", none⟩)]

/-- The text colours that Bootstrap sets on its theme colours. -/
def contrasts : Dictionary Color := .ofEntries
  [("danger", ⟨"white", none⟩),
   ("dark", ⟨"white", none⟩),
   ("info", ⟨"black", none⟩),
   ("light", ⟨"black", none⟩),
   ("primary", ⟨"white", none⟩),
   ("secondary", ⟨"white", none⟩),
   ("success", ⟨"white", none⟩),
   ("warning", ⟨"black", none⟩)]

end Restyle.Bootstrap

namespace Restyle

def Catalog.bootstrap : Catalog where
  vocabulary := Bootstrap.vocabulary
  tables := [Bootstrap.utilityTable, Bootstrap.colorTable]
  scales := Bootstrap.scales
  colors := Bootstrap.colors
  contrasts := Bootstrap.contrasts

end Restyle
