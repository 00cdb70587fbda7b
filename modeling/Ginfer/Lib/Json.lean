/-
JSON values, as a library with sorted objects keeps them.

An object is the list of its members; `insert` is assignment to a key of a
map ordered by key, and `Canonical` says that every object in a value is
such a map. Integers are those of the text, before any is read into a
machine word; a floating-point number is its bits.
-/
import Mathlib.Data.UInt

namespace Ginfer.Lib

open List

/-- A JSON value. -/
inductive Json where
  | null
  | boolean (b : Bool)
  | integer (n : Int)
  | float (bits : UInt64)
  | string (s : List UInt8)
  | array (items : List Json)
  | object (members : List (List UInt8 × Json))

namespace Json

variable {α : Type}

-- ============ the types

def isNull : Json → Bool
  | null => true
  | _ => false

def isString : Json → Bool
  | string _ => true
  | _ => false

def isObject : Json → Bool
  | object _ => true
  | _ => false

/-- The value of a string. -/
def string? : Json → Option (List UInt8)
  | string s => some s
  | _ => none

-- ============ the members

/-- A member of an object. -/
def find? (key : List UInt8) : Json → Option Json
  | object members => (members.find? fun m => m.1 == key).map Prod.snd
  | _ => none

/-- A member of an object that is there and is not null. -/
def present? (key : List UInt8) (value : Json) : Option Json :=
  match value.find? key with
  | some null => none
  | found => found

/-- A member of an object that is there and is a string. -/
def stringAt? (key : List UInt8) (value : Json) : Option (List UInt8) :=
  (value.find? key).bind string?

/-- Assignment to a key of a map ordered by key. -/
def insert (key : List UInt8) (value : α) :
    List (List UInt8 × α) → List (List UInt8 × α)
  | [] => [(key, value)]
  | (k, v) :: rest =>
    if key = k then (key, value) :: rest
    else if key < k then (key, value) :: (k, v) :: rest
    else (k, v) :: insert key value rest

/-- The object of some assignments. -/
def ofMembers (members : List (List UInt8 × Json)) : Json :=
  object (members.foldl (fun map m => insert m.1 m.2 map) [])

/-- The keys are in strictly increasing order. -/
def Sorted (members : List (List UInt8 × α)) : Prop :=
  members.Pairwise fun a b => a.1 < b.1

/-- Every object is a map ordered by key. -/
inductive Canonical : Json → Prop where
  | null : Canonical null
  | boolean (b : Bool) : Canonical (boolean b)
  | integer (n : Int) : Canonical (integer n)
  | float (bits : UInt64) : Canonical (float bits)
  | string (s : List UInt8) : Canonical (string s)
  | array (items : List Json) (h : ∀ v ∈ items, Canonical v) :
      Canonical (array items)
  | object (members : List (List UInt8 × Json)) (hsorted : Sorted members)
      (h : ∀ m ∈ members, Canonical m.2) : Canonical (object members)

-- ============ the lemmas

theorem insert_mem {key : List UInt8} {value : α}
    {map : List (List UInt8 × α)} {m : List UInt8 × α}
    (h : m ∈ insert key value map) : m = (key, value) ∨ m ∈ map := by
  induction map with
  | nil => exact .inl (mem_singleton.mp h)
  | cons first rest ih =>
    obtain ⟨k, v⟩ := first
    unfold insert at h
    split at h
    · rcases mem_cons.mp h with heq | hin
      · exact .inl heq
      · exact .inr (.tail _ hin)
    · split at h
      · rcases mem_cons.mp h with heq | hin
        · exact .inl heq
        · exact .inr hin
      · rcases mem_cons.mp h with heq | hin
        · exact .inr (heq ▸ (.head _))
        · rcases ih hin with heq | hrest
          · exact .inl heq
          · exact .inr (.tail _ hrest)

theorem insert_sorted (key : List UInt8) (value : α)
    {map : List (List UInt8 × α)} (h : Sorted map) :
    Sorted (insert key value map) := by
  induction map with
  | nil => exact pairwise_singleton _ _
  | cons first rest ih =>
    obtain ⟨k, v⟩ := first
    obtain ⟨hfirst, hrest⟩ := pairwise_cons.mp h
    unfold insert
    by_cases heq : key = k
    · subst heq
      rw [if_pos rfl]
      exact pairwise_cons.mpr ⟨hfirst, hrest⟩
    · rw [if_neg heq]
      by_cases hlt : key < k
      · rw [if_pos hlt]
        refine pairwise_cons.mpr ⟨?_, h⟩
        intro m hm
        rcases mem_cons.mp hm with rfl | hin
        · exact hlt
        · exact List.lt_trans hlt (hfirst m hin)
      · rw [if_neg hlt]
        refine pairwise_cons.mpr ⟨?_, ih hrest⟩
        intro m hm
        rcases insert_mem hm with rfl | hin
        · rcases List.le_iff_lt_or_eq.mp (List.not_lt.mp hlt) with
            hless | hsame
          · exact hless
          · exact absurd hsame.symm heq
        · exact hfirst m hin

theorem ofMembers_canonical {members : List (List UInt8 × Json)}
    (h : ∀ m ∈ members, Canonical m.2) : Canonical (ofMembers members) := by
  have hfold : ∀ (rest map : List (List UInt8 × Json)),
      (∀ m ∈ rest, Canonical m.2) → Sorted map →
      (∀ m ∈ map, Canonical m.2) →
      Canonical (object (rest.foldl (fun map m => insert m.1 m.2 map)
        map)) := by
    intro rest
    induction rest with
    | nil => exact fun map _ hsorted hmap => .object map hsorted hmap
    | cons m rest ih =>
      intro map hrest hsorted hmap
      refine ih _ (fun x hx => hrest x (.tail _ hx))
        (insert_sorted m.1 m.2 hsorted) ?_
      intro x hx
      rcases insert_mem hx with rfl | hin
      · exact hrest m (.head _)
      · exact hmap x hin
  exact hfold members [] h List.Pairwise.nil nofun

-- ============ the members of objects

theorem find?_cons (key k : List UInt8) (v : Json)
    (rest : List (List UInt8 × Json)) :
    (object ((k, v) :: rest)).find? key
      = if k = key then some v else (object rest).find? key := by
  show (List.find? (fun m => m.1 == key) ((k, v) :: rest)).map _ = _
  rw [List.find?_cons]
  by_cases hk : k = key
  · subst hk
    rw [if_pos rfl]
    simp
  · have hne : (k == key) = false := beq_eq_false_iff_ne.mpr hk
    rw [if_neg hk]
    dsimp only
    rw [hne]
    rfl

/-- The member of a key, after an assignment. -/
theorem find?_insert (key k : List UInt8) (value : Json)
    (map : List (List UInt8 × Json)) :
    (object (insert k value map)).find? key
      = if k = key then some value else (object map).find? key := by
  induction map with
  | nil => exact find?_cons key k value []
  | cons first rest ih =>
    obtain ⟨k', v⟩ := first
    unfold insert
    by_cases hsame : k = k'
    · subst hsame
      rw [if_pos rfl, find?_cons, find?_cons]
      by_cases hk : k = key
      · rw [if_pos hk, if_pos hk]
      · rw [if_neg hk, if_neg hk, if_neg hk]
    · rw [if_neg hsame]
      by_cases hlt : k < k'
      · rw [if_pos hlt, find?_cons]
      · rw [if_neg hlt, find?_cons, find?_cons, ih]
        by_cases hk' : k' = key
        · rw [if_pos hk', if_pos hk', if_neg fun h => hsame (h.trans hk'.symm)]
        · rw [if_neg hk', if_neg hk']

/-- An object of assignments to distinct keys has each of them. -/
theorem find?_ofMembers {members : List (List UInt8 × Json)}
    (hkeys : (members.map Prod.fst).Nodup) {key : List UInt8} {value : Json}
    (hmem : (key, value) ∈ members) :
    (ofMembers members).find? key = some value := by
  have hother : ∀ (rest map : List (List UInt8 × Json)),
      key ∉ rest.map Prod.fst →
        (object (rest.foldl (fun map m => insert m.1 m.2 map) map)).find? key
          = (object map).find? key := by
    intro rest
    induction rest with
    | nil => exact fun _ _ => rfl
    | cons m rest ih =>
      intro map hkey
      rw [map_cons, mem_cons, not_or] at hkey
      rw [foldl_cons, ih _ hkey.2, find?_insert, if_neg fun h => hkey.1 h.symm]
  obtain ⟨before, after, rfl⟩ := append_of_mem hmem
  rw [map_append, map_cons] at hkeys
  have hafter : key ∉ after.map Prod.fst :=
    (nodup_cons.mp (hkeys.sublist (sublist_append_right _ _))).1
  unfold ofMembers
  rw [foldl_append, foldl_cons, hother after _ hafter, find?_insert, if_pos rfl]

end Json

end Ginfer.Lib
