import Dataflow.Tensor

/-!
# Attributes of nodes

A node carries named attributes in the order in which the names were first given.

## Main definitions

* `Attribute` : the value of an attribute.
* `Attributes` : named attributes without repeated names.
* `Attributes.insert` : a new value for a name, in the place of the old one if there is one.
* `Attributes.same` : equality without regard to order.
-/

namespace Dataflow

/-- The value of an attribute. -/
inductive Attribute
  | int (n : Int)
  | ints (l : List Int)
  | float (x : Single)
  | floats (l : List Single)
  | str (s : String)
  | strs (l : List String)
  | tensor (t : Tensor)
deriving DecidableEq

/-- Equality of attributes, numbers being compared as numbers. -/
def Attribute.same : Attribute → Attribute → Bool
  | int a, int b => a == b
  | ints a, ints b => a == b
  | float a, float b => a.equals b
  | floats a, floats b => a.length == b.length && (a.zip b).all fun p => p.1.equals p.2
  | str a, str b => a == b
  | strs a, strs b => a == b
  | tensor a, tensor b => a.same b
  | _, _ => false

/-- Equality of attributes that may be absent. -/
def Attribute.sameOption : Option Attribute → Option Attribute → Bool
  | none, none => true
  | some a, some b => a.same b
  | _, _ => false

/-- Named attributes, each name being given once. -/
structure Attributes where
  entries : List (String × Attribute)
  nodup : (entries.map (·.1)).Nodup
deriving DecidableEq

namespace Attributes

def empty : Attributes :=
  ⟨[], .nil⟩

instance : Inhabited Attributes :=
  ⟨empty⟩

/-- The value of a name. -/
def get? (a : Attributes) (name : String) : Option Attribute :=
  a.entries.lookup name

/-- The entries with `v` at `name`, in its place or at the end. -/
def put (name : String) (v : Attribute) : List (String × Attribute) → List (String × Attribute)
  | [] => [(name, v)]
  | e :: rest => if e.1 = name then (name, v) :: rest else e :: put name v rest

theorem mem_keys_put {name key : String} {v : Attribute} {l : List (String × Attribute)} :
    key ∈ (put name v l).map (·.1) ↔ key = name ∨ key ∈ l.map (·.1) := by
  induction l with
  | nil => simp [put]
  | cons e rest ih =>
    rw [put]
    split
    · next h => simp [h]
    · rw [List.map_cons, List.mem_cons, ih, List.map_cons, List.mem_cons]
      exact or_left_comm

theorem nodup_put (name : String) (v : Attribute) {l : List (String × Attribute)}
    (h : (l.map (·.1)).Nodup) : ((put name v l).map (·.1)).Nodup := by
  induction l with
  | nil => simp [put]
  | cons e rest ih =>
    rw [List.map_cons, List.nodup_cons] at h
    rw [put]
    split
    · next he => rw [List.map_cons, List.nodup_cons]; exact ⟨he ▸ h.1, h.2⟩
    · next he =>
      rw [List.map_cons, List.nodup_cons, mem_keys_put]
      exact ⟨fun hm => hm.elim he h.1, ih h.2⟩

/-- The attributes with `v` as the value of `name`. -/
def insert (a : Attributes) (name : String) (v : Attribute) : Attributes :=
  ⟨put name v a.entries, nodup_put name v a.nodup⟩

/-- The attributes given by a list of entries, later ones replacing earlier ones. -/
def ofList (l : List (String × Attribute)) : Attributes :=
  l.foldl (fun a e => a.insert e.1 e.2) empty

/-- Equality of attributes in any order, numbers being compared as numbers. -/
def same (a b : Attributes) : Bool :=
  a.entries.length == b.entries.length &&
    a.entries.all fun e => Attribute.sameOption (some e.2) (b.get? e.1)

private theorem lookup_put (name key : String) (v : Attribute) (l : List (String × Attribute)) :
    (put name v l).lookup key = if key = name then some v else l.lookup key := by
  induction l with
  | nil =>
    by_cases h : key = name
    · subst h; simp [put]
    · simp [put, h, List.lookup_cons, show (key == name) = false by simpa using h]
  | cons e rest ih =>
    obtain ⟨first, w⟩ := e
    rw [put]
    split
    · next he =>
      obtain rfl : first = name := he
      by_cases h : key = first
      · subst h; simp
      · simp [List.lookup_cons, h, show (key == first) = false by simpa using h]
    · next he =>
      rw [List.lookup_cons, ih]
      by_cases hk : key = first
      · subst hk
        simp [he]
      · simp [List.lookup_cons, show (key == first) = false by simpa using hk]

/-- An inserted value is found under its name; the other names keep their values. -/
theorem get?_insert (a : Attributes) (name key : String) (v : Attribute) :
    (a.insert name v).get? key = if key = name then some v else a.get? key :=
  lookup_put name key v a.entries

end Attributes

end Dataflow
