/-
The catalog of the simulated host: datasets by name, in any case.
-/
import TsoBridge.Sim.Dataset

namespace TsoBridge.Sim

/-- The cataloged datasets. -/
structure Catalog where
  datasets : Table String Dataset := {}
deriving DecidableEq

namespace Catalog

/-- Catalogs a dataset in place of any other of its name. -/
def define (catalog : Catalog) (dataset : Dataset) : Catalog :=
  ⟨catalog.datasets.insert dataset.name dataset⟩

/-- The dataset of a name. -/
def get? (catalog : Catalog) (name : String) : Option Dataset :=
  catalog.datasets.get? (Text.upper name)

/-- Whether there is a dataset of a name. -/
def contains (catalog : Catalog) (name : String) : Bool :=
  (catalog.get? name).isSome

/-- The catalog without the dataset of a name. -/
def remove (catalog : Catalog) (name : String) : Catalog :=
  ⟨catalog.datasets.erase (Text.upper name)⟩

/-- The datasets that stay and whose name starts with the qualifiers of
`level`, by name. -/
def level (catalog : Catalog) (level : String) : List Dataset :=
  let level := Text.upper level
  let qualifiers := (level ++ ".").toList
  catalog.datasets.values.filter fun dataset =>
    !dataset.temporary && (dataset.name = level || qualifiers.isPrefixOf dataset.name.toList)

end Catalog
end TsoBridge.Sim
