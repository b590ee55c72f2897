import Restyle.Catalog
import Restyle.Options

namespace Restyle

def toneShades : List (String × Nat) := [("-subtle", 100), ("-emphasis", 800)]

namespace Catalog

def namedColor? (catalog : Catalog) (options : Options) (name : String) : Option Color :=
  (options.overrides.get? name).or (catalog.colors.get? name)

def toneColor? (catalog : Catalog) (options : Options) (name : String) (tone : String × Nat) :
    Option Color :=
  (beforeEnding? tone.1 name).bind fun base =>
    (catalog.namedColor? options base).bind fun color => color.tone? tone.2

/-- A colour of the very name is preferred to a tone of another. -/
def semanticColor? (catalog : Catalog) (options : Options) (name : String) : Option Color :=
  (catalog.namedColor? options name).or
    (toneShades.findSome? (catalog.toneColor? options name))

end Catalog

/-- Black on light colours and white on all others. -/
def Color.foreground (color : Color) : Color :=
  let light : Bool :=
    match color.shade with
    | some shade => decide (shade < 500)
    | none => color.name == "white"
  ⟨if light then "black" else "white", none⟩

namespace Catalog

/-- A contrast set by hand belongs to the catalog's own colour and not to an override. -/
def contrastColor? (catalog : Catalog) (options : Options) (name : String) : Option Color :=
  let set :=
    if options.overrides.contains name then none else catalog.contrasts.get? name
  set.or ((catalog.semanticColor? options name).map Color.foreground)

end Catalog

end Restyle
