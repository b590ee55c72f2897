import Restyle.Rule

namespace Restyle.Bootstrap

def displayRenames : List (String × String) :=
  [("d-none", "hidden"), ("d-inline", "inline"), ("d-inline-block", "inline-block"),
   ("d-block", "block"), ("d-grid", "grid"), ("d-inline-grid", "inline-grid"),
   ("d-table", "table"), ("d-table-row", "table-row"), ("d-table-cell", "table-cell"),
   ("d-flex", "flex"), ("d-inline-flex", "inline-flex")]

def flexRenames : List (String × String) :=
  [("flex-column", "flex-col"), ("flex-column-reverse", "flex-col-reverse"),
   ("flex-fill", "flex-auto"), ("flex-grow-0", "grow-0"), ("flex-grow-1", "grow"),
   ("flex-shrink-0", "shrink-0"), ("flex-shrink-1", "shrink"),
   ("justify-content-start", "justify-start"), ("justify-content-end", "justify-end"),
   ("justify-content-center", "justify-center"), ("justify-content-between", "justify-between"),
   ("justify-content-around", "justify-around"), ("justify-content-evenly", "justify-evenly"),
   ("align-items-start", "items-start"), ("align-items-end", "items-end"),
   ("align-items-center", "items-center"), ("align-items-baseline", "items-baseline"),
   ("align-items-stretch", "items-stretch"), ("align-content-start", "content-start"),
   ("align-content-end", "content-end"), ("align-content-center", "content-center"),
   ("align-content-between", "content-between"), ("align-content-around", "content-around"),
   ("align-content-stretch", "content-stretch"), ("align-self-auto", "self-auto"),
   ("align-self-start", "self-start"), ("align-self-end", "self-end"),
   ("align-self-center", "self-center"), ("align-self-baseline", "self-baseline"),
   ("align-self-stretch", "self-stretch")]

def objectFitRenames : List (String × String) :=
  [("object-fit-contain", "object-contain"), ("object-fit-cover", "object-cover"),
   ("object-fit-fill", "object-fill"), ("object-fit-scale", "object-scale-down"),
   ("object-fit-none", "object-none")]

def typographyRenames : List (String × String) :=
  [("text-decoration-none", "no-underline"), ("text-decoration-underline", "underline"),
   ("text-decoration-line-through", "line-through"), ("fw-light", "font-light"),
   ("fw-lighter", "font-extralight"), ("fw-normal", "font-normal"), ("fw-medium", "font-medium"),
   ("fw-semibold", "font-semibold"), ("fw-bold", "font-bold"), ("fw-bolder", "font-extrabold"),
   ("fst-italic", "italic"), ("fst-normal", "not-italic"), ("font-monospace", "font-mono")]

def backgroundRenames : List (String × String) :=
  [("bg-body", "bg-white"), ("bg-body-secondary", "bg-gray-100"),
   ("bg-body-tertiary", "bg-gray-50")]

def borderRenames : List (String × String) :=
  [("rounded-circle", "rounded-full"), ("rounded-pill", "rounded-full"), ("shadow", "shadow-md"),
   ("shadow-lg", "shadow-xl")]

def sizeRenames : List (String × String) :=
  [("mw-100", "max-w-full"), ("mh-100", "max-h-full"), ("vw-100", "w-screen"),
   ("vh-100", "h-screen"), ("min-vw-100", "min-w-[100vw]"), ("min-vh-100", "min-h-screen")]

def positionRenames : List (String × String) :=
  [("position-static", "static"), ("position-relative", "relative"),
   ("position-absolute", "absolute"), ("position-fixed", "fixed"), ("position-sticky", "sticky"),
   ("translate-middle-x", "-translate-x-1/2"), ("translate-middle-y", "-translate-y-1/2")]

def interactionRenames : List (String × String) :=
  [("visually-hidden", "sr-only"), ("user-select-all", "select-all"),
   ("user-select-auto", "select-auto"), ("user-select-none", "select-none"),
   ("pe-none", "pointer-events-none"), ("pe-auto", "pointer-events-auto"),
   ("link-underline", "underline")]

def ratioRenames : List (String × String) :=
  [("ratio-1x1", "aspect-square"), ("ratio-16x9", "aspect-video"), ("ratio-4x3", "aspect-[4/3]"),
   ("ratio-21x9", "aspect-[21/9]")]

def renames : List (String × String) :=
  displayRenames ++ flexRenames ++ objectFitRenames ++ typographyRenames ++ backgroundRenames ++
    borderRenames ++ sizeRenames ++ positionRenames ++ interactionRenames ++ ratioRenames

/-- Renamed classes of the stem `text`. Only its alignments are responsive. -/
def textRenames : List (String × String) :=
  [("text-lowercase", "lowercase"), ("text-uppercase", "uppercase"),
   ("text-capitalize", "capitalize"), ("text-nowrap", "whitespace-nowrap"),
   ("text-wrap", "whitespace-normal"), ("text-break", "break-words"),
   ("text-truncate", "truncate"), ("text-reset", "text-inherit"), ("text-muted", "text-gray-500"),
   ("text-body", "text-gray-900"), ("text-body-secondary", "text-gray-600"),
   ("text-body-tertiary", "text-gray-500"), ("text-body-emphasis", "text-black"),
   ("text-white-50", "text-white/50"), ("text-black-50", "text-black/50")]

def sharedClasses : List String :=
  ["text-center", "text-start", "text-end", "flex-row", "flex-row-reverse", "flex-wrap",
   "flex-nowrap", "flex-wrap-reverse", "float-start", "float-end", "float-none", "shadow-sm",
   "shadow-none", "visible", "invisible", "overflow-auto", "overflow-hidden", "overflow-visible",
   "overflow-scroll", "overflow-x-auto", "overflow-x-hidden", "overflow-x-visible",
   "overflow-x-scroll", "overflow-y-auto", "overflow-y-hidden", "overflow-y-visible",
   "overflow-y-scroll", "align-baseline", "align-top", "align-middle", "align-bottom",
   "align-text-top", "align-text-bottom"]

def composites : List (String × List String) :=
  [("translate-middle", ["-translate-x-1/2", "-translate-y-1/2"]),
   ("vstack", ["flex", "flex-1", "flex-col", "self-stretch"]),
   ("hstack", ["flex", "flex-row", "items-center", "self-stretch"]),
   ("stretched-link", ["after:absolute", "after:inset-0", "after:z-[1]", "after:content-['']"]),
   ("fixed-top", ["fixed", "top-0", "inset-x-0", "z-[1030]"]),
   ("fixed-bottom", ["fixed", "bottom-0", "inset-x-0", "z-[1030]"]),
   ("sticky-top", ["sticky", "top-0", "z-[1020]"]),
   ("sticky-bottom", ["sticky", "bottom-0", "z-[1020]"]),
   ("img-fluid", ["max-w-full", "h-auto"]),
   ("ratio", ["relative", "w-full"]),
   ("visually-hidden-focusable", ["sr-only", "focus:not-sr-only"]),
   ("clearfix", ["after:block", "after:clear-both", "after:content-['']"]),
   ("list-unstyled", ["list-none", "pl-0"]),
   ("lead", ["text-xl", "font-light"]),
   ("container", ["container", "mx-auto", "px-3"]),
   ("container-fluid", ["w-full", "mx-auto", "px-3"])]

/-- Stems whose value is a step of a scale, with the Tailwind lead and the scale. -/
def scaledStems : List (String × String × String) :=
  [("m", "m", "margin"), ("mt", "mt", "margin"), ("mb", "mb", "margin"), ("ms", "ms", "margin"),
   ("me", "me", "margin"), ("mx", "mx", "margin"), ("my", "my", "margin"), ("p", "p", "spacing"),
   ("pt", "pt", "spacing"), ("pb", "pb", "spacing"), ("ps", "ps", "spacing"),
   ("pe", "pe", "spacing"), ("px", "px", "spacing"), ("py", "py", "spacing"),
   ("gap", "gap", "spacing"), ("row-gap", "gap-y", "spacing"), ("column-gap", "gap-x", "spacing"),
   ("border", "border", "border-width"), ("border-top", "border-t", "border-width"),
   ("border-bottom", "border-b", "border-width"), ("border-start", "border-s", "border-width"),
   ("border-end", "border-e", "border-width"), ("rounded", "rounded", "border-radius"),
   ("rounded-top", "rounded-t", "border-radius"),
   ("rounded-bottom", "rounded-b", "border-radius"),
   ("rounded-start", "rounded-s", "border-radius"), ("rounded-end", "rounded-e", "border-radius"),
   ("opacity", "opacity", "opacity"), ("text-opacity", "text-opacity", "opacity"),
   ("bg-opacity", "bg-opacity", "opacity"), ("border-opacity", "border-opacity", "opacity"),
   ("link-opacity", "text-opacity", "opacity"),
   ("link-underline-opacity", "decoration", "underline-opacity"), ("fs", "text", "font-size"),
   ("lh", "leading", "line-height"), ("link-offset", "underline-offset", "link-offset"),
   ("w", "w", "percent"), ("h", "h", "percent"), ("top", "top", "inset"),
   ("bottom", "bottom", "inset"), ("start", "start", "inset"), ("end", "end", "inset"),
   ("order", "order", "order"), ("z", "z", "z-index")]

def colorStems : List (String × String) :=
  [("text", "text"), ("bg", "bg"), ("border", "border"), ("link", "text"),
   ("link-underline", "decoration")]

def utilityRules : List Rule :=
  renames.map (fun entry => .rename entry.1 entry.2) ++
    textRenames.map (fun entry => (Rule.rename entry.1 entry.2).withoutBreakpoints) ++
    sharedClasses.map .passthrough ++
    composites.map (fun entry => .composite entry.1 (entry.2.map .literal)) ++
    scaledStems.map fun entry => .scale entry.1 entry.2.1 entry.2.2

def colorRules : List Rule :=
  colorStems.map (fun entry => (Rule.color entry.1 entry.2).withoutBreakpoints) ++
    [(Rule.composite "text-bg" [.color "bg", .contrast "text"]).withoutBreakpoints]

def utilityTable : RuleTable := ⟨"bootstrap-utilities", utilityRules⟩

def colorTable : RuleTable := ⟨"bootstrap-colors", colorRules⟩

end Restyle.Bootstrap
