/-
Multimaps.

A table is a list of entries under keys that may repeat.  A lookup returns some entry
with an equal key, and which one is not promised.

* `Lookup.find_keyed` — where no key repeats, a lookup returns the entry;
* `erase_keyed` — erasing an entry from its table.
-/
import Mathlib.Data.List.Basic
import Mathlib.Data.List.Nodup

namespace Multimap

/-- A lookup that returns some entry with an equal key, if there is one. -/
structure Lookup (κ β : Type*) where
  find : List (κ × β) → κ → Option β
  mem_of_find : ∀ {t : List (κ × β)} {k : κ} {b : β}, find t k = some b → (k, b) ∈ t
  ne_none_of_mem : ∀ {t : List (κ × β)} {k : κ} {b : β}, (k, b) ∈ t → find t k ≠ none

variable {κ β : Type*}

/-- The table of a list of entries that carry their keys. -/
def keyed (key : β → κ) (l : List β) : List (κ × β) := l.map fun b => (key b, b)

theorem mem_keyed {key : β → κ} {l : List β} {k : κ} {b : β} :
    (k, b) ∈ keyed key l ↔ b ∈ l ∧ key b = k := by
  rw [keyed, List.mem_map]
  constructor
  · rintro ⟨b', hb, heq⟩
    obtain ⟨rfl, rfl⟩ := Prod.mk.inj heq
    exact ⟨hb, rfl⟩
  · rintro ⟨hb, rfl⟩
    exact ⟨b, hb, rfl⟩

/-- The first entry with the key. -/
def Lookup.first [DecidableEq κ] : Lookup κ β where
  find t k := (t.find? fun e => e.1 = k).map Prod.snd
  mem_of_find := by
    intro t k b h
    obtain ⟨⟨k', b'⟩, hfind, rfl⟩ := Option.map_eq_some_iff.mp h
    have hkey : k' = k := by simpa using List.find?_some hfind
    exact hkey ▸ List.mem_of_find?_eq_some hfind
  ne_none_of_mem := by
    intro t k b h hnone
    rw [Option.map_eq_none_iff, List.find?_eq_none] at hnone
    exact hnone _ h (by simp)

variable {L : Lookup κ β} {key : β → κ} {l : List β}

theorem Lookup.of_find_keyed {k : κ} {b : β} (h : L.find (keyed key l) k = some b) :
    b ∈ l ∧ key b = k :=
  mem_keyed.mp (L.mem_of_find h)

theorem Lookup.find_keyed (hk : (l.map key).Nodup) {b : β} (hb : b ∈ l) :
    L.find (keyed key l) (key b) = some b := by
  cases hfind : L.find (keyed key l) (key b) with
  | none => exact absurd hfind (L.ne_none_of_mem (mem_keyed.mpr ⟨hb, rfl⟩))
  | some b' =>
    obtain ⟨hb', hkey⟩ := Lookup.of_find_keyed hfind
    rw [List.inj_on_of_nodup_map hk hb' hb hkey]

theorem erase_keyed [DecidableEq κ] [DecidableEq β] (b : β) :
    (keyed key l).erase (key b, b) = keyed key (l.erase b) := by
  have hinj : Function.Injective fun b : β => (key b, b) := by
    intro x y hxy
    exact (Prod.mk.inj hxy).2
  rw [keyed, keyed, List.map_erase hinj]

end Multimap
