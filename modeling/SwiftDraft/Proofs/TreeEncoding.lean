import SwiftDraft.Json.Reader
import SwiftDraft.Tree.Encoding
import Mathlib.Data.List.Forall2

/-!
# Trees written and read back

A value that is read as a tree gives each node its own fields and, as attributes, all the others
(`Tree.reads_of_decode?`). A tree whose attributes keep clear of the names of the fields is read
back from what it is written as (`Tree.decode?_encode`), and every tree that was read is one.
-/

namespace SwiftDraft

open Text
open Json (Value)

namespace Text

theorem insertEntry_of_forall_lt {α : Type} {key : Text} {value : α} {entries : List (Text × α)}
    (less : ∀ e ∈ entries, e.1 < key) :
    insertEntry key value entries = entries ++ [(key, value)] := by
  induction entries with
  | nil => rfl
  | cons e rest ih =>
    obtain ⟨k, v⟩ := e
    have first : k < key := less (k, v) List.mem_cons_self
    have other : key ≠ k := by
      rintro rfl
      exact List.lt_irrefl _ first
    have notLess : ¬ key < k := List.lt_asymm first
    have behind := ih fun e he => less e (List.mem_cons_of_mem _ he)
    simp only [insertEntry, other, notLess, if_false, behind, List.cons_append]

theorem sortEntries_of_ascending {α : Type} {entries : List (Text × α)} (h : Ascending entries) :
    sortEntries entries = entries := by
  suffices general : ∀ sorted : List (Text × α), Ascending (sorted ++ entries) →
      entries.foldl (fun sorted e => insertEntry e.1 e.2 sorted) sorted = sorted ++ entries from
    general [] h
  clear h
  induction entries with
  | nil => simp
  | cons e rest ih =>
    intro sorted h
    have less : ∀ f ∈ sorted, f.1 < e.1 := fun f hf =>
      (List.pairwise_append.1 h).2.2 f hf e List.mem_cons_self
    rw [List.foldl_cons, insertEntry_of_forall_lt less, ih _ (by simpa using h)]
    simp

theorem mem_sortEntries {α : Type} {entries : List (Text × α)} {e : Text × α}
    (h : e ∈ sortEntries entries) : e ∈ entries := by
  suffices general : ∀ sorted : List (Text × α),
      e ∈ entries.foldl (fun sorted e => insertEntry e.1 e.2 sorted) sorted →
        e ∈ sorted ∨ e ∈ entries by
    simpa using general [] h
  clear h
  induction entries with
  | nil => exact fun _ h => .inl h
  | cons f rest ih =>
    intro sorted h
    rcases ih _ h with earlier | later
    · rcases mem_insertEntry earlier with here | earlier
      · exact .inr (here ▸ List.mem_cons_self)
      · exact .inl earlier
    · exact .inr (List.mem_cons_of_mem _ later)

theorem insertText_of_forall_lt {t : Text} {ts : List Text} (less : ∀ u ∈ ts, u < t) :
    insertText t ts = ts ++ [t] := by
  induction ts with
  | nil => rfl
  | cons s rest ih =>
    have first : s < t := less s List.mem_cons_self
    have other : t ≠ s := by
      rintro rfl
      exact List.lt_irrefl _ first
    have notLess : ¬ t < s := List.lt_asymm first
    have behind := ih fun u hu => less u (List.mem_cons_of_mem _ hu)
    simp only [insertText, other, notLess, if_false, behind, List.cons_append]

end Text

theorem TextSet.ofList_elements (set : TextSet) : TextSet.ofList set.elements = set := by
  suffices general : ∀ (ts : List Text) (start : TextSet), (start.elements ++ ts).Pairwise (· < ·) →
      (ts.foldl TextSet.insert start).elements = start.elements ++ ts by
    have same : (TextSet.ofList set.elements).elements = set.elements :=
      general set.elements TextSet.empty set.ascending
    generalize TextSet.ofList set.elements = found at same
    cases found
    cases set
    cases same
    rfl
  intro ts
  induction ts with
  | nil => simp
  | cons t ts ih =>
    intro start h
    have less : ∀ u ∈ start.elements, u < t := fun u hu =>
      (List.pairwise_append.1 h).2.2 u hu t List.mem_cons_self
    have inserted : (start.insert t).elements = start.elements ++ [t] :=
      insertText_of_forall_lt less
    rw [List.foldl_cons, ih _ (by simpa [inserted] using h), inserted]
    simp

theorem Attributes.ofList_entries (a : Attributes) : Attributes.ofList a.entries = a := by
  cases a with
  | mk entries ascending => simp only [Attributes.ofList, sortEntries_of_ascending ascending]

namespace Json.Value

mutual

/-- The fields of every object in a value stand in the order of their keys, each key once. -/
def Ordered : Value → Prop
  | array items => AllOrdered items
  | object fields => Ascending fields ∧ FieldsOrdered fields
  | _ => True

def AllOrdered : List Value → Prop
  | [] => True
  | v :: vs => v.Ordered ∧ AllOrdered vs

def FieldsOrdered : List (Text × Value) → Prop
  | [] => True
  | (_, v) :: fs => v.Ordered ∧ FieldsOrdered fs

end

theorem allOrdered_iff {items : List Value} : AllOrdered items ↔ ∀ v ∈ items, v.Ordered := by
  induction items with
  | nil => simp [AllOrdered]
  | cons v vs ih => simp [AllOrdered, ih]

theorem fieldsOrdered_iff {fields : List (Text × Value)} :
    FieldsOrdered fields ↔ ∀ f ∈ fields, f.2.Ordered := by
  induction fields with
  | nil => simp [FieldsOrdered]
  | cons f fs ih => simp [FieldsOrdered, ih]

theorem text?_eq_some {v : Value} {s : Text} : v.text? = some s ↔ v = .string s := by
  cases v <;> simp [text?]

theorem count?_ofNat {n : Nat} (h : n < wordSize) : (Value.ofNat n).count? = some n := by
  simp [ofNat, count?, h]

theorem count?_eq_some {v : Value} {n : Nat} : v.count? = some n ↔ v = .ofNat n ∧ n < wordSize := by
  constructor
  · intro h
    unfold count? at h
    split at h
    · next i =>
      split at h
      · next bounds =>
        cases h
        have same : ((i.toNat : Nat) : Int) = i := Int.toNat_of_nonneg bounds.1
        exact ⟨by rw [ofNat, same], by omega⟩
      · cases h
    · cases h
  · rintro ⟨rfl, bound⟩
    exact count?_ofNat bound

end Json.Value

namespace Tree

open Json.Value (field?)

/-- What holds of a tree if it holds of its children holds of every tree. -/
@[elab_as_elim]
theorem induction {P : Tree → Prop}
    (node : ∀ kind name line children attributes, (∀ t ∈ children, P t) →
      P (.node kind name line children attributes)) : ∀ t, P t
  | .node kind name line children attributes =>
    node kind name line children attributes fun t _ => induction node t
termination_by t => sizeOf t
decreasing_by
  have := List.sizeOf_lt_of_mem ‹t ∈ children›
  simp only [Tree.node.sizeOf_spec]
  omega

theorem walkFrom_append (ts us : List Tree) :
    walkFrom (ts ++ us) = walkFrom ts ++ walkFrom us := by
  induction ts using walkFrom.induct with
  | case1 => simp [walkFrom]
  | case2 t stack ih =>
    rw [List.cons_append, walkFrom_cons, walkFrom_cons, ← List.append_assoc, ih, List.cons_append]

theorem walkFrom_eq_flatMap (ts : List Tree) : walkFrom ts = ts.flatMap walk := by
  induction ts with
  | nil => simp [walkFrom]
  | cons t ts ih =>
    have split : walkFrom ([t] ++ ts) = walkFrom [t] ++ walkFrom ts := walkFrom_append [t] ts
    rw [List.flatMap_cons, ← ih]
    exact split

theorem walk_eq (t : Tree) : t.walk = t :: t.children.flatMap walk := by
  rw [walk, walkFrom_cons, List.append_nil, walkFrom_eq_flatMap]

/-- A tree that its written form can stand for: no attribute has the name of a field of a node, and
lines are machine words. -/
def Representable (t : Tree) : Prop :=
  ∀ n ∈ t.walk, (∀ e ∈ n.attributes.entries, e.1 ∉ ownKeys) ∧
    ∀ number, n.line = some number → number < wordSize

theorem representable_node {kind : Text} {name : Option Text} {line : Option Nat}
    {children : List Tree} {attributes : Attributes} :
    (node kind name line children attributes).Representable ↔
      (∀ e ∈ attributes.entries, e.1 ∉ ownKeys) ∧ (∀ number, line = some number → number < wordSize) ∧
        ∀ t ∈ children, t.Representable := by
  simp only [Representable]
  rw [walk_eq]
  simp only [List.forall_mem_cons, List.forall_mem_flatMap, and_assoc]
  rfl

/-- A field that is there, or is missing or `null` because there is nothing to write. -/
def OptionalField (field written : Option Value) : Prop :=
  field = written ∨ field = some .null ∧ written = none

/-- A value read as a tree. At every node the four fields are what they say, and the attributes are
the other fields, with their values and in their order. -/
inductive Reads : Value → Tree → Prop
  | node {fields : List (Text × Value)} {items : Option (List Value)} {kind : Text}
      {name : Option Text} {line : Option Nat} {children : List Tree} {attributes : Attributes}
      (kind_field : (Value.object fields).field? "type".toList = some (.string kind))
      (name_field :
        OptionalField ((Value.object fields).field? "name".toList) (name.map .string))
      (line_field :
        OptionalField ((Value.object fields).field? "line".toList) (line.map .ofNat))
      (children_field : (Value.object fields).field? "children".toList = items.map .array)
      (each : List.Forall₂ Reads (items.getD []) children)
      (others : attributes.entries = fields.filter fun f => !ownKeys.contains f.1) :
      Reads (.object fields) (.node kind name line children attributes)

theorem decodeAll?_eq_some {items : List Value} {ts : List Tree} :
    decodeAll? items = some ts ↔ List.Forall₂ (fun v t => decode? v = some t) items ts := by
  induction items generalizing ts with
  | nil => simp [decodeAll?, eq_comm]
  | cons v vs ih =>
    constructor
    · intro h
      unfold decodeAll? at h
      split at h
      · next t ts' first rest =>
        cases h
        exact .cons first (ih.1 rest)
      · cases h
    · intro h
      cases h with
      | cons first rest => simp [decodeAll?, first, ih.2 rest]

theorem decodeChildren?_eq (fields : List (Text × Value)) :
    decodeChildren? fields =
      match (Value.object fields).field? "children".toList with
      | none => some []
      | some (.array items) => decodeAll? items
      | some _ => none := by
  induction fields with
  | nil => rfl
  | cons f rest ih =>
    obtain ⟨key, v⟩ := f
    unfold decodeChildren?
    by_cases here : key = "children".toList
    · have found : (Value.object ((key, v) :: rest)).field? "children".toList = some v := by
        simp only [field?, List.find?_cons, here, beq_self_eq_true, Option.map_some]
      rw [found, if_pos here]
      cases v <;> rfl
    · have other : (key == "children".toList) = false := beq_false_of_ne here
      have skipped : (Value.object ((key, v) :: rest)).field? "children".toList =
          (Value.object rest).field? "children".toList := by
        simp only [field?, List.find?_cons, other]
      rw [skipped, if_neg here]
      exact ih

theorem decodeChildren?_eq_some {fields : List (Text × Value)} {children : List Tree}
    (h : decodeChildren? fields = some children) :
    ∃ items : Option (List Value),
      (Value.object fields).field? "children".toList = items.map .array ∧
        List.Forall₂ (fun v t => decode? v = some t) (items.getD []) children := by
  rw [decodeChildren?_eq] at h
  split at h
  · next missing =>
    cases h
    exact ⟨none, missing, .nil⟩
  · next items found => exact ⟨some items, found, decodeAll?_eq_some.1 h⟩
  · cases h

theorem optionalField?_eq_some {α : Type} {read : Value → Option α} {write : α → Value}
    {fields : List (Text × Value)} {key : Text} {x : Option α}
    (written : ∀ v a, read v = some a → v = write a)
    (h : optionalField? read key fields = some x) :
    OptionalField ((Value.object fields).field? key) (x.map write) := by
  unfold optionalField? at h
  split at h
  · next missing =>
    cases h
    exact .inl missing
  · next null =>
    cases h
    exact .inr ⟨null, rfl⟩
  · next v _ found =>
    obtain ⟨a, ha, rfl⟩ := Option.map_eq_some_iff.1 h
    exact .inl (by rw [found, written v a ha, Option.map_some])

theorem optionalField?_of_read {α : Type} {read : Value → Option α} {P : α → Prop}
    {fields : List (Text × Value)} {key : Text} {x : Option α}
    (sound : ∀ v a, read v = some a → P a) (h : optionalField? read key fields = some x) :
    ∀ a, x = some a → P a := by
  unfold optionalField? at h
  split at h
  · cases h
    simp
  · cases h
    simp
  · obtain ⟨b, hb, rfl⟩ := Option.map_eq_some_iff.1 h
    rintro a ⟨⟩
    exact sound _ _ hb

/-- What a node is read from. -/
theorem ofFields?_eq_some {fields : List (Text × Value)} {children : List Tree} {t : Tree}
    (h : ofFields? fields children = some t) :
    ∃ kind name line,
      (Value.object fields).field? "type".toList = some (.string kind) ∧
      optionalField? Value.text? "name".toList fields = some name ∧
      optionalField? Value.count? "line".toList fields = some line ∧
      t = node kind name line children
        (Attributes.ofList (fields.filter fun f => !ownKeys.contains f.1)) := by
  simp only [ofFields?, Option.bind_eq_bind, Option.bind_eq_some_iff, Option.pure_def,
    Option.some.injEq, Value.text?_eq_some] at h
  obtain ⟨kind, ⟨v, found, rfl⟩, name, hname, line, hline, rfl⟩ := h
  exact ⟨kind, name, line, found, hname, hline, rfl⟩

theorem decode?_eq_some {v : Value} {t : Tree} (h : decode? v = some t) :
    ∃ fields children, v = .object fields ∧ decodeChildren? fields = some children ∧
      ofFields? fields children = some t := by
  unfold decode? at h
  split at h
  · split at h
    · next fields _ children read => exact ⟨fields, children, rfl, read, h⟩
    · cases h
  · cases h

/-- The items of a field are among what is in the value. -/
theorem mem_of_field? {fields : List (Text × Value)} {key : Text} {v : Value}
    (h : (Value.object fields).field? key = some v) : ∃ f ∈ fields, f.2 = v := by
  obtain ⟨f, found, rfl⟩ := Option.map_eq_some_iff.1 h
  exact ⟨f, List.mem_of_find?_eq_some found, rfl⟩

/-- To show something of every value that is read as a tree it is enough to show it of a node, given
that it holds of the children. -/
theorem decode?_induction {P : Value → Tree → Prop}
    (node : ∀ (fields : List (Text × Value)) (items : Option (List Value)) (kind : Text)
      (name : Option Text) (line : Option Nat) (children : List Tree),
      (Value.object fields).field? "type".toList = some (.string kind) →
      optionalField? Value.text? "name".toList fields = some name →
      optionalField? Value.count? "line".toList fields = some line →
      (Value.object fields).field? "children".toList = items.map .array →
      List.Forall₂ P (items.getD []) children →
      P (.object fields) (.node kind name line children
        (Attributes.ofList (fields.filter fun f => !ownKeys.contains f.1))))
    {v : Value} {t : Tree} (h : decode? v = some t) : P v t := by
  -- By induction on a bound of the size, since the children stand inside a field's value.
  suffices general : ∀ n v t, sizeOf v ≤ n → decode? v = some t → P v t from
    general _ v t (Nat.le_refl _) h
  intro n
  induction n with
  | zero =>
    intro v t small
    cases v <;> simp at small
  | succ n ih =>
    intro v t small h
    obtain ⟨fields, children, rfl, hchildren, hfields⟩ := decode?_eq_some h
    obtain ⟨kind, name, line, hkind, hname, hline, rfl⟩ := ofFields?_eq_some hfields
    obtain ⟨items, children_field, each⟩ := decodeChildren?_eq_some hchildren
    refine node fields items kind name line children hkind hname hline children_field ?_
    have inside : ∀ u ∈ items.getD [], sizeOf u ≤ n := by
      intro u hu
      cases items with
      | none => cases hu
      | some items =>
        obtain ⟨⟨key, w⟩, mem, same⟩ := mem_of_field? children_field
        have inField := List.sizeOf_lt_of_mem mem
        have inItems : sizeOf u < sizeOf items := List.sizeOf_lt_of_mem hu
        cases same
        simp only [Prod.mk.sizeOf_spec, Value.array.sizeOf_spec, Value.object.sizeOf_spec] at *
        omega
    have bounded := (List.forall₂_and_left _ _).2 ⟨inside, each⟩
    exact bounded.imp fun u t ⟨smaller, read⟩ => ih u t smaller read

theorem reads_of_decode? {v : Value} {t : Tree} (ordered : v.Ordered) (h : decode? v = some t) :
    Reads v t := by
  revert ordered
  refine decode?_induction (P := fun v t => v.Ordered → Reads v t) ?_ h
  intro fields items kind name line children hkind hname hline children_field each ordered
  obtain ⟨ascending, inner⟩ := ordered
  refine .node hkind (optionalField?_eq_some (fun _ _ => Value.text?_eq_some.1) hname)
    (optionalField?_eq_some (fun _ _ read => (Value.count?_eq_some.1 read).1) hline)
    children_field ?_ ?_
  · have orderly : ∀ u ∈ items.getD [], u.Ordered := by
      intro u hu
      cases items with
      | none => cases hu
      | some items =>
        obtain ⟨f, mem, same⟩ := mem_of_field? children_field
        have field := Value.fieldsOrdered_iff.1 inner f mem
        rw [same] at field
        exact Value.allOrdered_iff.1 field u hu
    have both := (List.forall₂_and_left _ _).2 ⟨orderly, each⟩
    exact both.imp fun _ _ ⟨ordered, reads⟩ => reads ordered
  · exact sortEntries_of_ascending (ascending.filter _)

/-- Every tree that was read can be written. -/
theorem representable_of_decode? {v : Value} {t : Tree} (h : decode? v = some t) :
    t.Representable := by
  refine decode?_induction (P := fun _ t => t.Representable) ?_ h
  intro fields items kind name line children _ _ hline _ each
  refine representable_node.2 ⟨?_, ?_, ?_⟩
  · intro e he
    have kept := mem_sortEntries he
    simpa using (List.mem_filter.1 kept).2
  · exact optionalField?_of_read (fun _ _ read => (Value.count?_eq_some.1 read).2) hline
  · clear hline
    generalize items.getD [] = us at each
    induction each with
    | nil => simp
    | cons first _ rest => exact List.forall_mem_cons.2 ⟨first, rest⟩

theorem encodeAll_eq_map (ts : List Tree) : encodeAll ts = ts.map encode := by
  induction ts with
  | nil => rfl
  | cons t ts ih => rw [encodeAll, ih, List.map_cons]

theorem field?_append (key : Text) (front behind : List (Text × Value)) :
    (Value.object (front ++ behind)).field? key =
      ((Value.object front).field? key).or ((Value.object behind).field? key) := by
  simp [field?, List.find?_append, Option.map_or]

theorem field?_of_apart {entries : List (Text × Value)} {key : Text}
    (apart : ∀ e ∈ entries, e.1 ≠ key) : (Value.object entries).field? key = none := by
  have absent : entries.find? (fun e => e.1 == key) = none := by
    simpa using fun k v mem => apart (k, v) mem
  rw [field?, absent, Option.map_none]

/-- What an optional field was written as is read back. -/
theorem optionalField?_of_written {α : Type} {read : Value → Option α} {write : α → Value}
    {fields : List (Text × Value)} {key : Text} {x : Option α}
    (field : (Value.object fields).field? key = x.map write)
    (back : ∀ a, x = some a → write a ≠ .null ∧ read (write a) = some a) :
    optionalField? read key fields = some x := by
  unfold optionalField?
  cases x with
  | none => rw [field, Option.map_none]
  | some a =>
    obtain ⟨there, same⟩ := back a rfl
    rw [field, Option.map_some]
    split
    · next missing => cases missing
    · next null => exact absurd (Option.some.inj null) there
    · next v _ found =>
      cases found
      rw [same, Option.map_some]

section

variable (kind : Text) (name : Option Text) (line : Option Nat) (items : List Value)

theorem type_ownFields :
    (Value.object (ownFields kind name line items)).field? "type".toList =
      some (.string kind) := rfl

theorem name_ownFields :
    (Value.object (ownFields kind name line items)).field? "name".toList =
      name.map .string := by
  cases name <;> cases line <;> cases items <;> rfl

theorem line_ownFields :
    (Value.object (ownFields kind name line items)).field? "line".toList = line.map .ofNat := by
  cases name <;> cases line <;> cases items <;> rfl

theorem children_ownFields :
    (Value.object (ownFields kind name line items)).field? "children".toList =
      if items.isEmpty then none else some (.array items) := by
  cases name <;> cases line <;> cases items <;> rfl

theorem filter_ownFields :
    (ownFields kind name line items).filter (fun f => !ownKeys.contains f.1) = [] := by
  cases name <;> cases line <;> cases items <;> rfl

end

/-- A tree is read back from what it is written as. -/
theorem decode?_encode {t : Tree} (h : t.Representable) : decode? t.encode = some t := by
  induction t using Tree.induction with
  | node kind name line children attributes ih =>
    obtain ⟨apart, word, inner⟩ := representable_node.1 h
    have items : encodeAll children = children.map encode := encodeAll_eq_map children
    have own (key : Text) (mem : key ∈ ownKeys) :
        (Value.object (ownFields kind name line (encodeAll children) ++
          attributes.entries)).field? key =
        (Value.object (ownFields kind name line (encodeAll children))).field? key := by
      have absent : (Value.object attributes.entries).field? key = none :=
        field?_of_apart fun e he same => apart e he (same ▸ mem)
      rw [field?_append, absent, Option.or_none]
    have readChildren :
        decodeChildren? (ownFields kind name line (encodeAll children) ++ attributes.entries) =
          some children := by
      rw [decodeChildren?_eq, own _ (by simp [ownKeys]), children_ownFields, items]
      cases children with
      | nil => rfl
      | cons t ts =>
        rw [List.isEmpty_eq_false_iff.2 (by simp)]
        simp only [Bool.false_eq_true, if_false, decodeAll?_eq_some, List.forall₂_map_left_iff]
        exact List.forall₂_same.2 fun u hu => ih u hu (inner u hu)
    have readFields :
        ofFields? (ownFields kind name line (encodeAll children) ++ attributes.entries) children =
          some (node kind name line children attributes) := by
      have hname : optionalField? Value.text? "name".toList _ = some name :=
        optionalField?_of_written
          ((own "name".toList (by simp [ownKeys])).trans (name_ownFields ..))
          fun a _ => ⟨nofun, rfl⟩
      have hline : optionalField? Value.count? "line".toList _ = some line :=
        optionalField?_of_written
          ((own "line".toList (by simp [ownKeys])).trans (line_ownFields ..))
          fun number there => ⟨nofun, Value.count?_ofNat (word number there)⟩
      have others : (ownFields kind name line (encodeAll children) ++ attributes.entries).filter
          (fun f => !ownKeys.contains f.1) = attributes.entries := by
        rw [List.filter_append, filter_ownFields, List.nil_append, List.filter_eq_self]
        intro e he
        simpa using apart e he
      rw [ofFields?, own "type".toList (by simp [ownKeys]), type_ownFields, hname, hline, others,
        Attributes.ofList_entries]
      rfl
    rw [encode, decode?, readChildren]
    exact readFields

end Tree

end SwiftDraft
