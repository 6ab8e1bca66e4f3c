import EquationMap.Evaluation.Value
import Mathlib.Data.List.Forall2

namespace EquationMap

section

variable {ε α β : Type} {result : β} {fault : ε}

theorem exists_ok_of_bind {first : Except ε α} {next : α → Except ε β}
    (made : (first >>= next) = .ok result) :
    ∃ value, first = .ok value ∧ next value = .ok result := by
  cases first with
  | error fault => cases made
  | ok value => exact ⟨value, rfl, made⟩

theorem error_of_bind {first : Except ε α} {next : α → Except ε β}
    (failed : (first >>= next) = .error fault) :
    first = .error fault ∨ ∃ value, first = .ok value ∧ next value = .error fault := by
  cases first with
  | error other => exact .inl (congrArg Except.error (Except.error.inj failed))
  | ok value => exact .inr ⟨value, rfl, failed⟩

variable {function : α → Except ε β} {list : List α} {results : List β}

theorem mapM_eq_ok_iff : list.mapM function = .ok results ↔
    List.Forall₂ (fun item result => function item = .ok result) list results := by
  constructor
  · intro made
    induction list generalizing results with
    | nil =>
        cases made
        exact .nil
    | cons first rest induction =>
        rw [List.mapM_cons] at made
        obtain ⟨head, head_made, made⟩ := exists_ok_of_bind made
        obtain ⟨tail, tail_made, made⟩ := exists_ok_of_bind made
        cases made
        exact .cons head_made (induction tail_made)
  · intro each
    induction each with
    | nil => rfl
    | cons here _ induction =>
        rw [List.mapM_cons, here, induction]
        rfl

theorem exists_of_mem_mapM (made : list.mapM function = .ok results) (member : result ∈ results) :
    ∃ item ∈ list, function item = .ok result := by
  have each := mapM_eq_ok_iff.mp made
  clear made
  induction each with
  | nil => cases member
  | @cons item _ _ _ here _ induction =>
      rcases List.mem_cons.mp member with rfl | later
      · exact ⟨item, List.mem_cons_self, here⟩
      · obtain ⟨item, isItem, here⟩ := induction later
        exact ⟨item, List.mem_cons_of_mem _ isItem, here⟩

theorem exists_mem_of_mapM (made : list.mapM function = .ok results) {item : α}
    (member : item ∈ list) : ∃ result ∈ results, function item = .ok result := by
  have each := mapM_eq_ok_iff.mp made
  clear made
  induction each with
  | nil => cases member
  | @cons _ result _ _ here _ induction =>
      rcases List.mem_cons.mp member with rfl | later
      · exact ⟨result, List.mem_cons_self, here⟩
      · obtain ⟨result, isResult, here⟩ := induction later
        exact ⟨result, List.mem_cons_of_mem _ isResult, here⟩

theorem error_of_mapM (failed : list.mapM function = .error fault) :
    ∃ item ∈ list, function item = .error fault := by
  induction list with
  | nil => cases failed
  | cons first rest induction =>
      rw [List.mapM_cons] at failed
      rcases error_of_bind failed with here | ⟨head, -, failed⟩
      · exact ⟨first, List.mem_cons_self, here⟩
      · rcases error_of_bind failed with later | ⟨tail, -, failed⟩
        · obtain ⟨item, member, later⟩ := induction later
          exact ⟨item, List.mem_cons_of_mem _ member, later⟩
        · cases failed

end

namespace Value

mutual

/-- The integers held anywhere in a value, those of content apart. -/
def integers : Value → List Int
  | none | auto | bool _ | float _ _ | str _ | symbol _ _ | func _ | content _ => []
  | int value => [value]
  | array items => integersOfItems items
  | dict entries => integersOfEntries entries

def integersOfItems : List Value → List Int
  | [] => []
  | item :: rest => item.integers ++ integersOfItems rest

def integersOfEntries : List (String × Value) → List Int
  | [] => []
  | (_, value) :: rest => value.integers ++ integersOfEntries rest

end

mutual

/-- The text of a value with all its integers in full. -/
def code : Value → String
  | none => "none"
  | auto => "auto"
  | bool true => "true"
  | bool false => "false"
  | int value => toString value
  | float value _ => Decimal.toText value
  | str value => quoteString value
  | symbol text _ => text
  | func function => function.name
  | content _ => "[..]"
  | array [item] => "(" ++ item.code ++ ",)"
  | array items => "(" ++ ", ".intercalate (codeOfItems items) ++ ")"
  | dict [] => "(:)"
  | dict entries => "(" ++ ", ".intercalate (codeOfEntries entries) ++ ")"

def codeOfItems : List Value → List String
  | [] => []
  | item :: rest => item.code :: codeOfItems rest

def codeOfEntries : List (String × Value) → List String
  | [] => []
  | (key, value) :: rest => (key ++ ": " ++ value.code) :: codeOfEntries rest

end

/-- Whether no integer in a value is too long. -/
def IsWritable (value : Value) : Prop :=
  ∀ number ∈ value.integers, Decimal.isWritable number = true

instance (value : Value) : Decidable value.IsWritable :=
  inferInstanceAs (Decidable (∀ number ∈ value.integers, _))

theorem IsWritable.item {items : List Value} (writable : (array items).IsWritable) {item : Value}
    (member : item ∈ items) : item.IsWritable := by
  intro number inside
  refine writable number ?_
  rw [integers]
  induction items with
  | nil => cases member
  | cons first rest induction =>
      obtain ⟨-, later⟩ := List.forall_mem_append.mp writable
      rw [integersOfItems]
      rcases List.mem_cons.mp member with rfl | among
      · exact List.mem_append_left _ inside
      · exact List.mem_append_right _ (induction later among)

theorem IsWritable.entry {entries : List (String × Value)} (writable : (dict entries).IsWritable)
    {entry : String × Value} (member : entry ∈ entries) : entry.2.IsWritable := by
  intro number inside
  refine writable number ?_
  rw [integers]
  induction entries with
  | nil => cases member
  | cons first rest induction =>
      obtain ⟨-, later⟩ := List.forall_mem_append.mp writable
      rw [integersOfEntries]
      rcases List.mem_cons.mp member with rfl | among
      · exact List.mem_append_left _ inside
      · exact List.mem_append_right _ (induction later among)

/-- What is written of a part of a value: its text, if its integers are short enough. -/
def writtenIf {α : Type} (numbers : List Int) (text : α) : Except NumberFault α :=
  if ∀ number ∈ numbers, Decimal.isWritable number = true then .ok text
  else .error .integerTooLong

theorem writtenIf_nil {α : Type} (text : α) : writtenIf [] text = .ok text :=
  if_pos nofun

theorem writtenIf_append {α β γ : Type} (first rest : List Int) (head : α) (tail : β)
    (make : α → β → γ) :
    (do
      let head ← writtenIf first head
      let tail ← writtenIf rest tail
      return make head tail) = writtenIf (first ++ rest) (make head tail) := by
  unfold writtenIf
  by_cases here : ∀ number ∈ first, Decimal.isWritable number = true
  · by_cases later : ∀ number ∈ rest, Decimal.isWritable number = true
    · rw [if_pos here, if_pos later, if_pos (List.forall_mem_append.mpr ⟨here, later⟩)]
      rfl
    · rw [if_pos here, if_neg later, if_neg fun all => later (List.forall_mem_append.mp all).2]
      rfl
  · rw [if_neg here, if_neg fun all => here (List.forall_mem_append.mp all).1]
    rfl

theorem writtenIf_map {α β : Type} (numbers : List Int) (text : α) (make : α → β) :
    (do return make (← writtenIf numbers text)) = writtenIf numbers (make text) := by
  unfold writtenIf
  split <;> rfl

mutual

/-- The code of a value is its text, unless one of its integers is too long. -/
theorem toCode_eq : ∀ value : Value, value.toCode = writtenIf value.integers value.code
  | none | auto | bool true | bool false | float _ _ | str _ | symbol _ _ | func _
  | content _ => (writtenIf_nil _).symm
  | int value => by
      simp only [toCode, Decimal.writeInteger, integers, code, writtenIf, List.forall_mem_singleton]
  | array [] => (writtenIf_nil _).symm
  | array [item] => by
      rw [toCode, toCode_eq item, writtenIf_map, integers, integersOfItems, integersOfItems,
        List.append_nil, code]
  | array (first :: second :: rest) => by
      rw [toCode, itemCodes_eq, writtenIf_map _ _ fun codes => "(" ++ ", ".intercalate codes ++ ")"]
      · rfl
      · exact fun _ => nofun
  | dict [] => (writtenIf_nil _).symm
  | dict (entry :: rest) => by
      rw [toCode, entryCodes_eq,
        writtenIf_map _ _ fun codes => "(" ++ ", ".intercalate codes ++ ")"]
      · rfl
      · exact nofun

theorem itemCodes_eq : ∀ items : List Value,
    itemCodes items = writtenIf (integersOfItems items) (codeOfItems items)
  | [] => (writtenIf_nil _).symm
  | item :: rest => by
      rw [itemCodes, toCode_eq item, itemCodes_eq rest, writtenIf_append, integersOfItems,
        codeOfItems]

theorem entryCodes_eq : ∀ entries : List (String × Value),
    entryCodes entries = writtenIf (integersOfEntries entries) (codeOfEntries entries)
  | [] => (writtenIf_nil _).symm
  | (key, value) :: rest => by
      rw [entryCodes, toCode_eq value, entryCodes_eq rest,
        writtenIf_append _ _ _ _ fun code codes => (key ++ ": " ++ code) :: codes,
        integersOfEntries, codeOfEntries]

end

variable {value : Value} {span : Span} {shown : Content} {fault : NumberFault}

theorem toCode_of_isWritable (writable : value.IsWritable) : value.toCode = .ok value.code := by
  rw [toCode_eq]
  exact if_pos writable

theorem toCode_of_not_isWritable (unwritable : ¬value.IsWritable) :
    value.toCode = .error .integerTooLong := by
  rw [toCode_eq]
  exact if_neg unwritable

theorem display_of_isWritable (writable : value.IsWritable) (span : Span) :
    ∃ shown, value.display span = .ok shown := by
  cases value with
  | content | none | str | symbol => exact ⟨_, rfl⟩
  | _ =>
      rw [display, toCode_of_isWritable writable]
      exact ⟨_, rfl⟩

theorem error_of_display (failed : value.display span = .error fault) :
    fault = .integerTooLong ∧ ¬value.IsWritable := by
  have unwritable : ¬value.IsWritable := by
    intro writable
    obtain ⟨shown, shows⟩ := display_of_isWritable writable span
    rw [shows] at failed
    cases failed
  have written := toCode_of_not_isWritable unwritable
  refine ⟨?_, unwritable⟩
  cases value with
  | content | none | str | symbol => cases failed
  | _ =>
      rcases error_of_bind failed with here | ⟨code, -, made⟩
      · exact Except.error.inj (here.symm.trans written)
      · cases made

theorem display_cases (shows : value.display span = .ok shown) :
    (∃ made, value = content made ∧ shown = made.spanned span) ∨ shown = .sequence [] span ∨
      ∃ written upright limits, shown = .text written upright limits span := by
  cases value with
  | content made =>
      cases shows
      exact .inl ⟨made, rfl, rfl⟩
  | none =>
      cases shows
      exact .inr (.inl rfl)
  | str | symbol =>
      cases shows
      exact .inr (.inr ⟨_, _, _, rfl⟩)
  | _ =>
      obtain ⟨code, -, made⟩ := exists_ok_of_bind shows
      cases made
      exact .inr (.inr ⟨_, _, _, rfl⟩)

end Value

/-- Whether a result fails only for an integer among the given ones that is too long. -/
def FailsOnlyFor {α : Type} (numbers : List Int) (result : Except NumberFault α) : Prop :=
  ∀ fault, result = .error fault →
    fault = .integerTooLong ∧ ∃ number ∈ numbers, Decimal.isWritable number = false

namespace FailsOnlyFor

variable {α β : Type} {numbers : List Int}

theorem ok (value : α) : FailsOnlyFor numbers (.ok value) :=
  nofun

theorem bind {first : Except NumberFault α} {next : α → Except NumberFault β} {later : List Int}
    (here : FailsOnlyFor numbers first) (there : ∀ value, FailsOnlyFor later (next value)) :
    FailsOnlyFor (numbers ++ later) (first >>= next) := by
  intro fault failed
  rcases error_of_bind failed with failed | ⟨value, -, failed⟩
  · obtain ⟨same, number, member, long⟩ := here fault failed
    exact ⟨same, number, List.mem_append_left _ member, long⟩
  · obtain ⟨same, number, member, long⟩ := there value fault failed
    exact ⟨same, number, List.mem_append_right _ member, long⟩

theorem map {first : Except NumberFault α} (here : FailsOnlyFor numbers first)
    (function : α → β) : FailsOnlyFor numbers (do return function (← first)) := by
  have both : FailsOnlyFor (numbers ++ []) (do return function (← first)) :=
    here.bind fun value => .ok (function value)
  rwa [List.append_nil] at both

theorem writeInteger (value : Int) : FailsOnlyFor [value] (Decimal.writeInteger value) := by
  unfold Decimal.writeInteger
  split
  · exact .ok _
  · rename_i long
    rintro fault ⟨⟩
    exact ⟨rfl, value, List.mem_singleton_self _, eq_false_of_ne_true long⟩

end FailsOnlyFor

namespace Listing

mutual

/-- The integers anywhere in listed data, the numbers of its spans among them. -/
def integers : Listing → List Int
  | absent | truth _ | decimal _ | text _ | word _ | span .detached => []
  | integer value => [value]
  | span (.numbered _ number) => [(number : Int)]
  | tuple items | list items => integersOfItems items
  | entries pairs | record _ pairs => integersOfEntries pairs

def integersOfItems : List Listing → List Int
  | [] => []
  | item :: rest => item.integers ++ integersOfItems rest

def integersOfEntries : List (String × Listing) → List Int
  | [] => []
  | (_, value) :: rest => value.integers ++ integersOfEntries rest

end

mutual

theorem toText_failsOnlyFor : ∀ listing : Listing, FailsOnlyFor listing.integers listing.toText
  | absent | truth true | truth false | decimal _ | text _ | word _ | span .detached => .ok _
  | integer value => .writeInteger value
  | span (.numbered _ number) => (FailsOnlyFor.writeInteger number).map _
  | tuple [] => .ok _
  | tuple [item] => by
      rw [integers, integersOfItems, integersOfItems, List.append_nil]
      exact (toText_failsOnlyFor item).map _
  | tuple (first :: second :: rest) =>
      (itemTexts_failsOnlyFor (first :: second :: rest)).map _
  | list items => (itemTexts_failsOnlyFor items).map _
  | entries pairs => (entryTexts_failsOnlyFor pairs).map _
  | record _ fields => (fieldTexts_failsOnlyFor fields).map _

theorem itemTexts_failsOnlyFor : ∀ items : List Listing,
    FailsOnlyFor (integersOfItems items) (itemTexts items)
  | [] => .ok _
  | item :: rest => (toText_failsOnlyFor item).bind fun _ => (itemTexts_failsOnlyFor rest).map _

theorem entryTexts_failsOnlyFor : ∀ pairs : List (String × Listing),
    FailsOnlyFor (integersOfEntries pairs) (entryTexts pairs)
  | [] => .ok _
  | (_, value) :: rest =>
      (toText_failsOnlyFor value).bind fun _ => (entryTexts_failsOnlyFor rest).map _

theorem fieldTexts_failsOnlyFor : ∀ fields : List (String × Listing),
    FailsOnlyFor (integersOfEntries fields) (fieldTexts fields)
  | [] => .ok _
  | (_, value) :: rest =>
      (toText_failsOnlyFor value).bind fun _ => (fieldTexts_failsOnlyFor rest).map _

end

end Listing

namespace Value

/-- Whether a value has, among all that it lists, an integer that is too long. -/
def IsOverlong (value : Value) : Prop :=
  ∃ number ∈ value.listing.integers, Decimal.isWritable number = false

mutual

theorem integers_subset_listing : ∀ value : Value, value.integers ⊆ value.listing.integers
  | none | auto | bool _ | float _ _ | str _ | symbol _ _ | func _ | content _ =>
      List.nil_subset _
  | int _ => List.Subset.refl _
  | array items => by
      rw [integers, listing, Listing.integers]
      exact integersOfItems_subset_listings items
  | dict entries => by
      rw [integers, listing, Listing.integers]
      exact integersOfEntries_subset_listings entries

theorem integersOfItems_subset_listings : ∀ items : List Value,
    integersOfItems items ⊆ Listing.integersOfItems (listings items)
  | [] => List.Subset.refl _
  | item :: rest => by
      rw [integersOfItems, listings, Listing.integersOfItems]
      exact List.append_subset.mpr
        ⟨List.subset_append_of_subset_left _ item.integers_subset_listing,
        List.subset_append_of_subset_right _ (integersOfItems_subset_listings rest)⟩

theorem integersOfEntries_subset_listings : ∀ entries : List (String × Value),
    integersOfEntries entries ⊆ Listing.integersOfEntries (entryListings entries)
  | [] => List.Subset.refl _
  | (_, value) :: rest => by
      rw [integersOfEntries, entryListings, Listing.integersOfEntries]
      exact List.append_subset.mpr
        ⟨List.subset_append_of_subset_left _ value.integers_subset_listing,
          List.subset_append_of_subset_right _ (integersOfEntries_subset_listings rest)⟩

end

variable {value : Value} {fault : NumberFault}

theorem isOverlong_of_display {span : Span} (failed : value.display span = .error fault) :
    fault = .integerTooLong ∧ value.IsOverlong := by
  obtain ⟨same, unwritable⟩ := error_of_display failed
  obtain ⟨number, unwritable⟩ := not_forall.mp unwritable
  obtain ⟨member, long⟩ := Classical.not_imp.mp unwritable
  exact ⟨same, number, integers_subset_listing value member, eq_false_of_ne_true long⟩

theorem isOverlong_of_listing (failed : value.listing.toText = .error fault) :
    fault = .integerTooLong ∧ value.IsOverlong :=
  Listing.toText_failsOnlyFor _ fault failed

theorem isOverlong_of_item {items : List Value} {item : Value} (member : item ∈ items)
    (long : item.IsOverlong) : (array items).IsOverlong := by
  obtain ⟨number, inside, long⟩ := long
  refine ⟨number, ?_, long⟩
  rw [listing, Listing.integers]
  induction items with
  | nil => cases member
  | cons first rest induction =>
      rw [listings, Listing.integersOfItems]
      rcases List.mem_cons.mp member with rfl | later
      · exact List.mem_append_left _ inside
      · exact List.mem_append_right _ (induction later)

theorem isOverlong_of_entry {entries : List (String × Value)} {entry : String × Value}
    (member : entry ∈ entries) (long : entry.2.IsOverlong) : (dict entries).IsOverlong := by
  obtain ⟨number, inside, long⟩ := long
  refine ⟨number, ?_, long⟩
  rw [listing, Listing.integers]
  induction entries with
  | nil => cases member
  | cons first rest induction =>
      rw [entryListings, Listing.integersOfEntries]
      rcases List.mem_cons.mp member with rfl | later
      · exact List.mem_append_left _ inside
      · exact List.mem_append_right _ (induction later)

end Value

end EquationMap
