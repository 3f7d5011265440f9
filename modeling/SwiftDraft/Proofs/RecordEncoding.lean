import SwiftDraft.Proofs.Quoting
import SwiftDraft.Proofs.TreeEncoding
import SwiftDraft.Workbench.Encoding

/-!
# Records written and read back

What a record is written as is read back as that record, with the tree in it
(`Workbench.encoding_lossless`). Every value that is read from a text has each key of an object
once.
-/

namespace SwiftDraft

open Text
open Json (Value structure? list? nullable? orNull)

namespace Json

open Value (Ordered allOrdered_iff fieldsOrdered_iff)

theorem ordered_sortEntries {fields : List (Text × Value)} (h : ∀ f ∈ fields, f.2.Ordered) :
    (Value.object (sortEntries fields)).Ordered :=
  ⟨ascending_sortEntries fields, fieldsOrdered_iff.2 fun f hf => h f (mem_sortEntries hf)⟩

/-- All that is read in as many steps is ordered. -/
structure ReadsOrdered (fuel : Nat) : Prop where
  value : ∀ depth s v rest, readValue fuel depth s = some (v, rest) → v.Ordered
  items : ∀ depth s vs rest, readItems fuel depth s = some (vs, rest) → ∀ v ∈ vs, v.Ordered
  fields : ∀ depth s fs rest, readFields fuel depth s = some (fs, rest) → ∀ f ∈ fs, f.2.Ordered

theorem ordered_readValue {fuel : Nat} (ih : ReadsOrdered fuel) {depth : Nat} {s rest : Text}
    {v : Value}
    (h : readValue (fuel + 1) depth s = some (v, rest)) : v.Ordered := by
  unfold readValue at h
  split at h
  · cases h
  · obtain ⟨p, -, same⟩ := Option.map_eq_some_iff.1 h
    cases same
    trivial
  · split at h
    · cases h
    · split at h
      · cases h
        trivial
      · obtain ⟨⟨vs, r⟩, read, same⟩ := Option.map_eq_some_iff.1 h
        cases same
        exact allOrdered_iff.2 (ih.items _ _ _ _ read)
  · split at h
    · cases h
    · split at h
      · cases h
        exact ⟨.nil, trivial⟩
      · obtain ⟨⟨fs, r⟩, read, same⟩ := Option.map_eq_some_iff.1 h
        cases same
        exact ordered_sortEntries (ih.fields _ _ _ _ read)
  · split at h
    · cases h
      trivial
    · split at h
      · cases h
        trivial
      · split at h
        · cases h
          trivial
        · obtain ⟨p, -, same⟩ := Option.map_eq_some_iff.1 h
          cases same
          trivial

theorem ordered_readItems {fuel : Nat} (ih : ReadsOrdered fuel) {depth : Nat} {s rest : Text}
    {vs : List Value} (h : readItems (fuel + 1) depth s = some (vs, rest)) :
    ∀ v ∈ vs, v.Ordered := by
  unfold readItems at h
  split at h
  · cases h
  · next v r read =>
    have first : v.Ordered := ih.value _ _ _ _ read
    split at h
    · cases h
      exact List.forall_mem_singleton.2 first
    · obtain ⟨⟨more, r'⟩, further, same⟩ := Option.map_eq_some_iff.1 h
      cases same
      exact List.forall_mem_cons.2 ⟨first, ih.items _ _ _ _ further⟩
    · cases h

theorem ordered_readFields {fuel : Nat} (ih : ReadsOrdered fuel) {depth : Nat} {s rest : Text}
    {fs : List (Text × Value)} (h : readFields (fuel + 1) depth s = some (fs, rest)) :
    ∀ f ∈ fs, f.2.Ordered := by
  unfold readFields at h
  split at h
  · split at h
    · cases h
    · split at h
      · split at h
        · cases h
        · next v r read =>
          have first : v.Ordered := ih.value _ _ _ _ read
          split at h
          · cases h
            exact List.forall_mem_singleton.2 first
          · obtain ⟨⟨more, r'⟩, further, same⟩ := Option.map_eq_some_iff.1 h
            cases same
            exact List.forall_mem_cons.2 ⟨first, ih.fields _ _ _ _ further⟩
          · cases h
      · cases h
  · cases h

theorem readsOrdered (fuel : Nat) : ReadsOrdered fuel := by
  induction fuel with
  | zero => constructor <;> intros <;> simp_all [readValue, readItems, readFields]
  | succ fuel ih =>
    exact ⟨fun _ _ _ _ => ordered_readValue ih, fun _ _ _ _ => ordered_readItems ih,
      fun _ _ _ _ => ordered_readFields ih⟩

/-- A text that is read as a value has each key of an object once. -/
theorem ordered_of_read? {s : Text} {v : Value} (h : read? s = some v) : v.Ordered := by
  unfold read? at h
  split at h
  · next v' rest read =>
    split at h
    · cases h
      exact (readsOrdered _).value _ _ _ _ read
    · cases h
  · cases h

/-- For `simp` from the outside in (`↓`): from the inside out it goes through the steps behind a
step anew at each of them. -/
theorem do_eq_some_iff {α β : Type} {x : Option α} {f : α → Option β} {b : β} :
    (x >>= f) = some b ↔ ∃ a, x = some a ∧ f a = some b :=
  Option.bind_eq_some_iff

theorem list?_map {α : Type} {read : Value → Option α} {write : α → Value} {xs : List α}
    (back : ∀ a ∈ xs, read (write a) = some a) : list? read (.array (xs.map write)) = some xs := by
  change (xs.map write).mapM read = some xs
  induction xs with
  | nil => rfl
  | cons a xs ih =>
    have first : read (write a) = some a := back a List.mem_cons_self
    have rest := ih fun b hb => back b (List.mem_cons_of_mem _ hb)
    simp [List.mapM_cons, first, rest]

/-- What is read as a list was read item by item. -/
theorem exists_of_mem_list? {α : Type} {read : Value → Option α} {v : Value} {xs : List α}
    (h : list? read v = some xs) : ∀ a ∈ xs, ∃ w, read w = some a := by
  unfold list? at h
  split at h
  · next items =>
    induction items generalizing xs with
    | nil =>
      cases h
      exact List.forall_mem_nil _
    | cons w items ih =>
      rw [List.mapM_cons] at h
      obtain ⟨a, first, h⟩ := Option.bind_eq_some_iff.1 h
      obtain ⟨as, rest, same⟩ := Option.bind_eq_some_iff.1 h
      cases same
      exact List.forall_mem_cons.2 ⟨⟨w, first⟩, ih rest⟩
  · cases h

theorem nullable?_orNull {α : Type} {read : Value → Option α} {write : α → Value} {x : Option α}
    (back : ∀ a, x = some a → write a ≠ .null ∧ read (write a) = some a) :
    nullable? read (orNull write x) = some x := by
  cases x with
  | none => rfl
  | some a =>
    obtain ⟨there, same⟩ := back a rfl
    unfold nullable? orNull
    split
    · next null => exact absurd null there
    · rw [same, Option.map_some]

end Json

namespace Script

theorem OutlineItem.decode?_of_fields {v name line : Value} {i : OutlineItem}
    (fields : structure? ["name", "line"] v = some [some name, some line])
    (readName : name.text? = some i.name) (readLine : line.count? = some i.line) :
    decode? v = some i := by
  simp [decode?, fields, readName, readLine]

theorem OutlineItem.decode?_encode {i : OutlineItem} (word : i.line < wordSize) :
    decode? i.encode = some i :=
  decode?_of_fields rfl rfl (Value.count?_ofNat word)

/-- The lines of an outline are machine words. -/
def Outline.Representable (o : Outline) : Prop :=
  ∀ i ∈ o.functions ++ o.types ++ o.assigned, i.line < wordSize

theorem Outline.decode?_encode {o : Outline} (words : o.Representable) :
    decode? o.encode = some o := by
  have fields : structure? ["functions", "types", "variables"] o.encode =
      some [some (.array (o.functions.map OutlineItem.encode)),
        some (.array (o.types.map OutlineItem.encode)),
        some (.array (o.assigned.map OutlineItem.encode))] := rfl
  have items (is : List OutlineItem) (part : ∀ i ∈ is, i ∈ o.functions ++ o.types ++ o.assigned) :
      list? OutlineItem.decode? (.array (is.map OutlineItem.encode)) = some is :=
    Json.list?_map fun i hi => OutlineItem.decode?_encode (words i (part i hi))
  have functions := items o.functions (by simp +contextual)
  have types := items o.types (by simp +contextual)
  have assigned := items o.assigned (by simp +contextual)
  simp [decode?, fields, functions, types, assigned]

theorem OutlineItem.line_lt_of_decode? {v : Value} {i : OutlineItem} (h : decode? v = some i) :
    i.line < wordSize := by
  unfold decode? at h
  obtain ⟨fields, -, h⟩ := Option.bind_eq_some_iff.1 h
  split at h
  · simp only [↓Json.do_eq_some_iff, Option.bind_eq_some_iff, Option.pure_def,
      Option.some.injEq] at h
    obtain ⟨_, -, _, ⟨w, -, counted⟩, rfl⟩ := h
    exact (Value.count?_eq_some.1 counted).2
  · cases h

theorem Outline.representable_of_decode? {v : Value} {o : Outline} (h : decode? v = some o) :
    o.Representable := by
  unfold decode? at h
  obtain ⟨fields, -, h⟩ := Option.bind_eq_some_iff.1 h
  split at h
  · simp only [↓Json.do_eq_some_iff, Option.bind_eq_some_iff, Option.pure_def,
      Option.some.injEq] at h
    obtain ⟨_, ⟨_, -, functions⟩, _, ⟨_, -, types⟩, _, ⟨_, -, assigned⟩, rfl⟩ := h
    have words {v : Value} {is : List OutlineItem} (read : list? OutlineItem.decode? v = some is) :
        ∀ i ∈ is, i.line < wordSize := by
      intro i hi
      obtain ⟨w, found⟩ := Json.exists_of_mem_list? read i hi
      exact OutlineItem.line_lt_of_decode? found
    intro i hi
    rcases List.mem_append.1 hi with either | last
    · rcases List.mem_append.1 either with first | second
      · exact words functions i first
      · exact words types i second
    · exact words assigned i last
  · cases h

theorem Warning.decode?_of_fields {v line message : Value} {w : Warning}
    (fields : structure? ["line", "message"] v = some [some line, some message])
    (readLine : line.count? = some w.line) (readMessage : message.text? = some w.message) :
    decode? v = some w := by
  simp [decode?, fields, readLine, readMessage]

theorem Warning.decode?_encode {w : Warning} (word : w.line < wordSize) :
    decode? w.encode = some w :=
  decode?_of_fields rfl (Value.count?_ofNat word) rfl

theorem Warning.line_lt_of_decode? {v : Value} {w : Warning} (h : decode? v = some w) :
    w.line < wordSize := by
  unfold decode? at h
  obtain ⟨fields, -, h⟩ := Option.bind_eq_some_iff.1 h
  split at h
  · simp only [↓Json.do_eq_some_iff, Option.bind_eq_some_iff, Option.pure_def,
      Option.some.injEq] at h
    obtain ⟨_, ⟨u, -, counted⟩, _, -, rfl⟩ := h
    exact (Value.count?_eq_some.1 counted).2
  · cases h

end Script

theorem Draft.line_lt_of_decode? {v : Value} {d : Draft} (h : decode? v = some d) :
    ∀ w ∈ d.warnings, w.line < wordSize := by
  unfold decode? at h
  obtain ⟨fields, -, h⟩ := Option.bind_eq_some_iff.1 h
  split at h
  · simp only [↓Json.do_eq_some_iff, Option.bind_eq_some_iff, Option.pure_def,
      Option.some.injEq] at h
    obtain ⟨_, -, _, ⟨_, -, warnings⟩, rfl⟩ := h
    intro w hw
    obtain ⟨u, found⟩ := Json.exists_of_mem_list? warnings w hw
    exact Script.Warning.line_lt_of_decode? found
  · cases h

theorem Draft.decode?_encode {d : Draft} (words : ∀ w ∈ d.warnings, w.line < wordSize) :
    decode? d.encode = some d := by
  have fields : structure? ["text", "warnings"] d.encode =
      some [some (.string d.text), some (.array (d.warnings.map Script.Warning.encode))] := rfl
  have warnings : list? Script.Warning.decode? (.array (d.warnings.map Script.Warning.encode)) =
      some d.warnings :=
    Json.list?_map fun w hw => Script.Warning.decode?_encode (words w hw)
  simp [decode?, fields, Value.text?, warnings]

namespace Skeleton

theorem Kind.ofText?_text (k : Kind) : Kind.ofText? k.text = some k := by cases k <;> rfl

theorem Test.decode?_encode (t : Test) : decode? t.encode = some t := by
  have fields : structure? ["name", "body", "kind"] t.encode =
      some [some (.string t.name), some (.string t.body), some (.string t.kind.text)] := rfl
  simp [decode?, fields, Value.text?, Json.name?, Kind.ofText?_text]

end Skeleton

namespace Workbench

theorem Status.decode?_encode (s : Status) : decode? s.encode = some s :=
  Status.ofText_text s

theorem Tree.encode_ne_null (t : Tree) : t.encode ≠ .null := by
  cases t
  exact nofun

namespace StoredRecord

variable {Moment : Type} {forms : Forms Moment} {r : StoredRecord Moment}

/-- A record that its written form can stand for, as every record is whose numbers are machine words
and whose tree, if it has one, keeps clear of the names of the fields. -/
structure Representable (r : StoredRecord Moment) : Prop where
  id : r.id < idLimit
  outline : r.outline.Representable
  tree : ∀ t, r.tree = some t → t.Representable
  draft : ∀ d, r.draft = some d → ∀ w ∈ d.warnings, w.line < wordSize

theorem decode?_of_fields {v id name source origin status history packages outline tree draft tests
      error createdAt : Value}
    (fields : structure? keys v =
      some [some id, some name, some source, some origin, some status, some history, some packages,
        some outline, some tree, some draft, some tests, some error, some createdAt])
    (readId : id.text?.bind forms.id? = some r.id) (readName : name.text? = some r.name)
    (readSource : source.text? = some r.source)
    (readOrigin : nullable? Value.text? origin = some r.origin)
    (readStatus : Status.decode? status = some r.status)
    (readHistory : list? Status.decode? history = some r.history)
    (readPackages : list? Value.text? packages = some r.packages.elements)
    (readOutline : Script.Outline.decode? outline = some r.outline)
    (readTree : nullable? Tree.decode? tree = some r.tree)
    (readDraft : nullable? Draft.decode? draft = some r.draft)
    (readTests : list? Skeleton.Test.decode? tests = some r.tests)
    (readError : nullable? Value.text? error = some r.error)
    (readMoment : createdAt.text?.bind forms.moment? = some r.createdAt) :
    decode? forms v = some r := by
  unfold decode?
  refine Option.bind_eq_some_iff.2 ⟨_, fields, ?_⟩
  change (_ >>= _) = _
  simp only [↓Json.do_eq_some_iff, optional?, Option.bind_some, Option.pure_def, Option.some.injEq,
    exists_eq_left', readId, readName, readSource, readOrigin, readStatus, readHistory,
    readPackages, TextSet.ofList_elements, readOutline, readTree, readDraft, readTests, readError,
    readMoment]

/-- A record is read back from what it is written as. -/
theorem decode?_encode (lawful : forms.Lawful) (h : r.Representable) :
    decode? forms (r.encode forms) = some r := by
  have text (x : Option Text) : nullable? Value.text? (orNull .string x) = some x :=
    Json.nullable?_orNull fun _ _ => ⟨nofun, rfl⟩
  refine decode?_of_fields rfl (lawful.id_back r.id h.id) rfl rfl (text _)
    (Status.decode?_encode _) ?history ?packages (Script.Outline.decode?_encode h.outline)
    ?tree ?draft ?tests (text _) (lawful.moment_back r.createdAt)
  case history => exact Json.list?_map fun s _ => Status.decode?_encode s
  case packages => exact Json.list?_map fun _ _ => rfl
  case tree =>
    exact Json.nullable?_orNull fun t ht =>
      ⟨Tree.encode_ne_null t, Tree.decode?_encode (h.tree t ht)⟩
  case draft =>
    exact Json.nullable?_orNull fun d hd => ⟨nofun, Draft.decode?_encode (h.draft d hd)⟩
  case tests => exact Json.list?_map fun t _ => Skeleton.Test.decode?_encode t

theorem exists_of_optional? {α : Type} {read : Value → Option α} {field : Option Value} {a : α}
    (h : optional? read field = some (some a)) : ∃ w, read w = some a := by
  cases field with
  | none => cases h
  | some v =>
    change nullable? read v = some (some a) at h
    unfold nullable? at h
    split at h
    · cases h
    · obtain ⟨b, found, same⟩ := Option.map_eq_some_iff.1 h
      cases same
      exact ⟨v, found⟩

/-- Whatever is read as a record can be written. -/
theorem representable_of_decode? (lawful : forms.Lawful) {v : Value}
    (h : decode? forms v = some r) : r.Representable := by
  unfold decode? at h
  obtain ⟨fields, -, h⟩ := Option.bind_eq_some_iff.1 h
  split at h
  · next id name source origin status history packages outline tree draft tests error createdAt =>
    simp only [↓Json.do_eq_some_iff, Option.bind_eq_some_iff, Option.pure_def,
      Option.some.injEq] at h
    obtain ⟨_, ⟨t, -, readId⟩, _, -, _, -, _, -, _, -, _, -, _, -, _, ⟨_, -, readOutline⟩, _,
      readTree, _, readDraft, _, -, _, -, _, -, rfl⟩ := h
    refine ⟨lawful.id_lt t _ readId, Script.Outline.representable_of_decode? readOutline, ?_, ?_⟩
    · rintro t rfl
      obtain ⟨w, found⟩ := exists_of_optional? readTree
      exact Tree.representable_of_decode? found
    · rintro d rfl
      obtain ⟨w, found⟩ := exists_of_optional? readDraft
      exact Draft.line_lt_of_decode? found
  · cases h

end StoredRecord

/-- Nothing is lost in writing. A value that is read as a tree (a value that comes from a text has
each key once) says field by field what the nodes are, all other fields being attributes, and what
the tree is written as is read as the same tree. So is every tree whose attributes keep clear of the
names of the fields. The same goes for records with such a tree or none, as long as the libraries
read back the ids and moments that they write. -/
theorem encoding_lossless :
    (∀ s v, Json.read? s = some v → v.Ordered) ∧
    (∀ v t, Tree.decode? v = some t →
      (v.Ordered → Tree.Reads v t) ∧ t.Representable ∧ Tree.decode? t.encode = some t) ∧
    (∀ t : Tree, t.Representable → Tree.decode? t.encode = some t) ∧
    ∀ (Moment : Type) (forms : Forms Moment), forms.Lawful →
      (∀ v r, StoredRecord.decode? forms v = some r →
        r.Representable ∧ StoredRecord.decode? forms (r.encode forms) = some r) ∧
      ∀ r : StoredRecord Moment, r.Representable →
        StoredRecord.decode? forms (r.encode forms) = some r := by
  refine ⟨fun s v => Json.ordered_of_read?, ?trees, fun t => Tree.decode?_encode, ?records⟩
  case trees =>
    intro v t h
    have representable : t.Representable := Tree.representable_of_decode? h
    exact ⟨fun ordered => Tree.reads_of_decode? ordered h, representable,
      Tree.decode?_encode representable⟩
  case records =>
    intro Moment forms lawful
    refine ⟨fun v r h => ?_, fun r => StoredRecord.decode?_encode lawful⟩
    have representable : r.Representable := StoredRecord.representable_of_decode? lawful h
    exact ⟨representable, StoredRecord.decode?_encode lawful representable⟩

/-- A module without a name, with a function that has attributes. -/
def decoratedValue : Value :=
  .object
    [("children".toList, .array [.object
      [("decorators".toList, .array [.string "cached".toList]), ("line".toList, .ofNat 3),
        ("name".toList, .string "f".toList), ("returns".toList, .null),
        ("type".toList, .string Tree.functionKind)]]),
      ("name".toList, .null), ("type".toList, .string Tree.moduleKind)]

def decoratedTree : Tree :=
  Tree.ofModule [.node Tree.functionKind (some "f".toList) (some 3) []
    (Attributes.ofList
      [("decorators".toList, .array [.string "cached".toList]), ("returns".toList, .null)])]

/-- The last digits of a number in base 16, as many as asked for. -/
def hexDigits : Nat → Nat → Text
  | 0, _ => []
  | width + 1, n => hexDigits width (n / 16) ++ [Quoted.hexDigit (n % 16)]

/-- The number that digits in base 16 stand for. -/
def hexNumber? (digits : Text) : Option Nat :=
  digits.foldlM (fun n c => (Quoted.hexValue? c).map fun d => n * 16 + d) 0

theorem hexNumber?_hexDigits {width n : Nat} (fits : n < Nat.pow 16 width) :
    hexNumber? (hexDigits width n) = some n := by
  unfold hexNumber?
  induction width generalizing n with
  | zero =>
    have zero : n = 0 := Nat.lt_one_iff.1 fits
    rw [zero]
    rfl
  | succ width ih =>
    have front : n / 16 < Nat.pow 16 width := Nat.div_lt_of_lt_mul (Nat.mul_comm _ _ ▸ fits)
    have last : Quoted.hexValue? (Quoted.hexDigit (n % 16)) = some (n % 16) :=
      Quoted.hexValue?_hexDigit _ (Nat.mod_lt n (by decide))
    rw [hexDigits, List.foldlM_append, ih front]
    change (Quoted.hexValue? (Quoted.hexDigit (n % 16))).map _ >>= pure = _
    rw [last]
    exact congrArg some (Nat.div_add_mod' n 16)

/-- A text with hyphens behind groups of so many characters. -/
def hyphenate : List Nat → Text → Text
  | [], s => s
  | width :: widths, s => s.take width ++ '-' :: hyphenate widths (s.drop width)

theorem filter_hyphenate (widths : List Nat) {s : Text} (plain : ∀ c ∈ s, c ≠ '-') :
    (hyphenate widths s).filter (· ≠ '-') = s := by
  induction widths generalizing s with
  | nil => exact List.filter_eq_self.2 fun c hc => decide_eq_true (plain c hc)
  | cons width widths ih =>
    have first : (s.take width).filter (· ≠ '-') = s.take width :=
      List.filter_eq_self.2 fun c hc => decide_eq_true (plain c (List.mem_of_mem_take hc))
    have rest := @ih (s.drop width) fun c hc => plain c (List.mem_of_mem_drop hc)
    rw [hyphenate, List.filter_append, first, List.filter_cons_of_neg (by decide), rest,
      List.take_append_drop]

theorem not_hyphen_of_mem_hexDigits {width n : Nat} : ∀ c ∈ hexDigits width n, c ≠ '-' := by
  induction width generalizing n with
  | zero => exact List.forall_mem_nil _
  | succ width ih =>
    have digit : ∀ d < 16, Quoted.hexDigit d ≠ '-' := by decide
    exact List.forall_mem_append.2
      ⟨ih, List.forall_mem_singleton.2 (digit _ (Nat.mod_lt n (by decide)))⟩

/-- An id as 32 digits in five groups. -/
def groupedId (id : Id) : Text := hyphenate [8, 4, 4, 4] (hexDigits 32 id)

def groupedId? (t : Text) : Option Id :=
  (hexNumber? (t.filter (· ≠ '-'))).filter fun id => id < idLimit ∧ groupedId id = t

theorem groupedId?_groupedId {id : Id} (small : id < idLimit) :
    groupedId? (groupedId id) = some id := by
  have digits : (groupedId id).filter (· ≠ '-') = hexDigits 32 id :=
    filter_hyphenate _ not_hyphen_of_mem_hexDigits
  rw [groupedId?, digits, hexNumber?_hexDigits small]
  exact if_pos (decide_eq_true ⟨small, rfl⟩)

theorem lt_of_groupedId? {t : Text} {id : Id} (read : groupedId? t = some id) : id < idLimit := by
  unfold groupedId? at read
  obtain ⟨-, grouped⟩ := Option.filter_eq_some_iff.1 read
  exact (of_decide_eq_true grouped).1

/-- Ids in groups of digits, and moments given by their texts. -/
def groupedForms : Forms Text := ⟨groupedId, groupedId?, fun t => t, some⟩

theorem groupedForms_lawful : groupedForms.Lawful := by
  constructor
  · intro id small
    simp only [groupedForms]
    exact groupedId?_groupedId small
  · intro t id read
    simp only [groupedForms] at read
    exact lt_of_groupedId? read
  · intro m
    rfl

theorem encoding_lossless_of_decorated :
    let r : StoredRecord Text :=
      { Record.new 7 "demo".toList [] none with
        tree := some decoratedTree
        createdAt := "2024-01-02T03:04:05Z".toList }
    Tree.Reads decoratedValue decoratedTree ∧
      Tree.decode? decoratedTree.encode = some decoratedTree ∧
      groupedForms.id 7 = "00000000-0000-0000-0000-000000000007".toList ∧
      StoredRecord.decode? groupedForms (r.encode groupedForms) = some r := by
  intro r
  obtain ⟨-, trees, -, records⟩ := encoding_lossless
  have ordered : decoratedValue.Ordered := by
    simp only [decoratedValue, Value.Ordered, Value.AllOrdered, Value.FieldsOrdered, Ascending,
      Value.ofNat]
    decide
  obtain ⟨reads, representable, back⟩ := trees decoratedValue decoratedTree rfl
  refine ⟨reads ordered, back, by decide,
    (records Text groupedForms groupedForms_lawful).2 r ⟨?_, ?_, ?_, ?_⟩⟩
  · decide
  · intro i hi
    cases hi
  · rintro t ⟨⟩
    exact representable
  · rintro d ⟨⟩

end Workbench

end SwiftDraft
