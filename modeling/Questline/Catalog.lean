import Questline.Dict
import Questline.Quest.Basic

/-!
# Catalogs

The quests that can be played, by id. Every quest stands under its own id
(`Catalog.id_of_get?`), so the id under which a quest is looked up and the id in the
quest never differ.
-/

namespace Questline

/-- The quests that can be played. -/
structure Catalog where
  table : Dict Quest
  keyed : ∀ id q, table.get? id = some q → q.id = id

namespace Catalog

/-- The catalog without quests. -/
def empty : Catalog := ⟨∅, fun _ _ h => by cases h⟩

instance : EmptyCollection Catalog := ⟨empty⟩
instance : Inhabited Catalog := ⟨empty⟩

def get? (c : Catalog) (id : String) : Option Quest := c.table.get? id

def contains (c : Catalog) (id : String) : Bool := c.table.contains id

def size (c : Catalog) : Nat := c.table.size

def isEmpty (c : Catalog) : Bool := c.table.isEmpty

/-- All quests, by increasing id. -/
def quests (c : Catalog) : List Quest := c.table.values

/-- Put a quest in, in the place of one with the same id. -/
def insert (c : Catalog) (q : Quest) : Catalog where
  table := c.table.insert q.id q
  keyed id r h := by
    rw [Dict.get?_insert] at h
    split at h
    · rename_i heq
      cases h
      exact heq
    · exact c.keyed id r h

/-- A catalog of given quests; of two with one id the later counts. -/
def ofQuests (qs : List Quest) : Catalog := qs.foldl insert ∅

theorem id_of_get? {c : Catalog} {id : String} {q : Quest} (h : c.get? id = some q) :
    q.id = id := c.keyed id q h

theorem get?_insert (c : Catalog) (q : Quest) (id : String) :
    (c.insert q).get? id = if q.id = id then some q else c.get? id :=
  Dict.get?_insert ..

end Catalog

end Questline
