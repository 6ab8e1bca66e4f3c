import EquationMap.Proofs.Display.Writing
import EquationMap.Proofs.Lexing.Spelling

namespace EquationMap

/-- Whether a name stands for itself before a colon in code. -/
structure IsCodeName (name : String) : Prop where
  isWord : ∃ c rest, name.toList = c :: rest ∧ startsName c = true ∧
    ∀ d ∈ rest, Text.isWordChar d = true
  noKeyword : Token.keywords.lookup name = none

/-- Parts in a row with separators between them; a mark comes after a lone part. -/
def joined (separator mark : List α) : List (List α) → List α
  | [part] => part ++ mark
  | parts => separator.intercalate parts

namespace Value

/-- Whether a value is made of literals, under keys that are names. -/
inductive IsPlain : Value → Prop
  | none : IsPlain none
  | auto : IsPlain auto
  | bool (value : Bool) : IsPlain (bool value)
  | int (value : Int) : IsPlain (int value)
  | str (text : String) : IsPlain (str text)
  | array {items : List Value} (plain : ∀ item ∈ items, IsPlain item) : IsPlain (array items)
  | dict {entries : List (String × Value)} (distinct : (Entries.keys entries).Nodup)
      (names : ∀ entry ∈ entries, IsCodeName entry.1)
      (plain : ∀ entry ∈ entries, IsPlain entry.2) : IsPlain (dict entries)

mutual

/-- How many arrays and dictionaries are around the innermost part of a value. -/
def nesting : Value → Nat
  | none | auto | bool _ | int _ | float _ _ | str _ | symbol _ _ | func _ | content _ => 0
  | array items => nestingOfItems items + 1
  | dict entries => nestingOfEntries entries + 1

def nestingOfItems : List Value → Nat
  | [] => 0
  | item :: rest => max item.nesting (nestingOfItems rest)

def nestingOfEntries : List (String × Value) → Nat
  | [] => 0
  | (_, value) :: rest => max value.nesting (nestingOfEntries rest)

end

mutual

/-- The strings held anywhere in a value, keys apart. -/
def strings : Value → List String
  | none | auto | bool _ | int _ | float _ _ | symbol _ _ | func _ | content _ => []
  | str text => [text]
  | array items => stringsOfItems items
  | dict entries => stringsOfEntries entries

def stringsOfItems : List Value → List String
  | [] => []
  | item :: rest => item.strings ++ stringsOfItems rest

def stringsOfEntries : List (String × Value) → List String
  | [] => []
  | (_, value) :: rest => value.strings ++ stringsOfEntries rest

end

/-- What the literal of a string is read as, if its last quote is the one that ends it. -/
def rereadText? (text : String) : Option String :=
  (decodeLiteral? (quoteString text).toList).map String.ofList

mutual

/-- The value with its strings replaced by what their literals are read as. -/
def reread : Value → Value
  | str text => str ((rereadText? text).getD "")
  | array items => array (rereadItems items)
  | dict entries => dict (rereadEntries entries)
  | value => value

def rereadItems : List Value → List Value
  | [] => []
  | item :: rest => item.reread :: rereadItems rest

def rereadEntries : List (String × Value) → List (String × Value)
  | [] => []
  | (key, value) :: rest => (key, value.reread) :: rereadEntries rest

end

def grouped (tokens : List (TokenKind × String)) : List (TokenKind × String) :=
  (.lparen, "(") :: tokens ++ [(.rparen, ")")]

mutual

/-- The tokens that a value is written with, apart from their places. -/
def bareTokens : Value → List (TokenKind × String)
  | none => [(.none, "none")]
  | auto => [(.auto, "auto")]
  | bool true => [(.bool, "true")]
  | bool false => [(.bool, "false")]
  | int (.ofNat size) => [(.int, toString size)]
  | int (.negSucc size) => [(.minus, "-"), (.int, toString (size + 1))]
  | str text => [(.string, text)]
  | array items => grouped (joined [(.comma, ",")] [(.comma, ",")] (tokensOfItems items))
  | dict [] => grouped [(.colon, ":")]
  | dict entries => grouped ([(.comma, ",")].intercalate (tokensOfEntries entries))
  | float _ _ | symbol _ _ | func _ | content _ => []

def tokensOfItems : List Value → List (List (TokenKind × String))
  | [] => []
  | item :: rest => item.bareTokens :: tokensOfItems rest

def tokensOfEntries : List (String × Value) → List (List (TokenKind × String))
  | [] => []
  | (key, value) :: rest =>
      ((.ident, key) :: (.colon, ":") :: value.bareTokens) :: tokensOfEntries rest

end

variable {items : List Value} {entries : List (String × Value)}

theorem codeOfItems_eq (items : List Value) : codeOfItems items = items.map code := by
  induction items with
  | nil => rfl
  | cons item rest induction => rw [codeOfItems, induction, List.map_cons]

theorem codeOfEntries_eq (entries : List (String × Value)) :
    codeOfEntries entries = entries.map fun entry => entry.1 ++ ": " ++ entry.2.code := by
  induction entries with
  | nil => rfl
  | cons entry rest induction => rw [codeOfEntries, induction, List.map_cons]

theorem tokensOfItems_eq (items : List Value) : tokensOfItems items = items.map bareTokens := by
  induction items with
  | nil => rfl
  | cons item rest induction => rw [tokensOfItems, induction, List.map_cons]

theorem tokensOfEntries_eq (entries : List (String × Value)) :
    tokensOfEntries entries =
      entries.map fun entry => (.ident, entry.1) :: (.colon, ":") :: entry.2.bareTokens := by
  induction entries with
  | nil => rfl
  | cons entry rest induction => rw [tokensOfEntries, induction, List.map_cons]

theorem bareTokens_dict (nonempty : entries ≠ []) :
    (dict entries).bareTokens = grouped ([(.comma, ",")].intercalate (entries.map fun entry =>
      (.ident, entry.1) :: (.colon, ":") :: entry.2.bareTokens)) := by
  cases entries with
  | nil => exact absurd rfl nonempty
  | cons entry rest =>
      rw [bareTokens, tokensOfEntries_eq]
      exact List.cons_ne_nil entry rest

theorem rereadItems_eq (items : List Value) : rereadItems items = items.map reread := by
  induction items with
  | nil => rfl
  | cons item rest induction => rw [rereadItems, induction, List.map_cons]

theorem rereadEntries_eq (entries : List (String × Value)) :
    rereadEntries entries = entries.map fun entry => (entry.1, entry.2.reread) := by
  induction entries with
  | nil => rfl
  | cons entry rest induction => rw [rereadEntries, induction, List.map_cons]

theorem stringsOfItems_eq (items : List Value) : stringsOfItems items = items.flatMap strings := by
  induction items with
  | nil => rfl
  | cons item rest induction => rw [stringsOfItems, induction, List.flatMap_cons]

theorem stringsOfEntries_eq (entries : List (String × Value)) :
    stringsOfEntries entries = entries.flatMap fun entry => entry.2.strings := by
  induction entries with
  | nil => rfl
  | cons entry rest induction => rw [stringsOfEntries, induction, List.flatMap_cons]

theorem nesting_lt_of_mem_items {item : Value} (member : item ∈ items) :
    item.nesting < (array items).nesting := by
  rw [nesting, Nat.lt_succ_iff]
  induction items with
  | nil => cases member
  | cons other rest induction =>
      rw [nestingOfItems]
      rcases List.mem_cons.mp member with rfl | later
      · exact Nat.le_max_left _ _
      · exact Nat.le_trans (induction later) (Nat.le_max_right _ _)

theorem nesting_lt_of_mem_entries {entry : String × Value} (member : entry ∈ entries) :
    entry.2.nesting < (dict entries).nesting := by
  rw [nesting, Nat.lt_succ_iff]
  induction entries with
  | nil => cases member
  | cons other rest induction =>
      rw [nestingOfEntries]
      rcases List.mem_cons.mp member with rfl | later
      · exact Nat.le_max_left _ _
      · exact Nat.le_trans (induction later) (Nat.le_max_right _ _)

def escaped (contents : List Char) : List Char :=
  contents.flatMap fun c => if c = '"' then ['\\', c] else [c]

theorem toList_quoteString (text : String) :
    (quoteString text).toList = '"' :: (escaped text.toList ++ ['"']) := by
  unfold quoteString escaped
  rw [String.toList_ofList, List.cons_append]

theorem toList_code_array : ∀ items : List Value, (array items).code.toList =
    '(' :: joined [',', ' '] [','] (items.map fun item => item.code.toList) ++ [')']
  | [] => by simp [code, codeOfItems, joined]
  | [item] => by simp [code, joined]
  | first :: second :: rest => by
      simp [code, codeOfItems_eq, joined, String.toList_intercalate, Function.comp_def]

theorem toList_code_dict (nonempty : entries ≠ []) :
    (dict entries).code.toList =
      '(' :: [',', ' '].intercalate (entries.map fun entry =>
        entry.1.toList ++ ':' :: ' ' :: entry.2.code.toList) ++ [')'] := by
  have written : String.toList ∘ (fun entry : String × Value =>
      entry.1 ++ ": " ++ entry.2.code) =
        fun entry => entry.1.toList ++ ':' :: ' ' :: entry.2.code.toList := by
    funext entry
    simp
  cases entries with
  | nil => exact absurd rfl nonempty
  | cons entry rest =>
      rw [code, String.toList_append, String.toList_append, String.toList_intercalate,
        codeOfEntries_eq, List.map_map, written]
      · rfl
      · exact List.cons_ne_nil entry rest

theorem escaped_cons (c : Char) (rest : List Char) :
    escaped (c :: rest) = (if c = '"' then ['\\', c] else [c]) ++ escaped rest :=
  List.flatMap_cons

theorem decodeContents?_escaped_cons {c : Char} (notBackslash : c ≠ '\\') (rest : List Char) :
    decodeContents? (escaped (c :: rest) ++ ['"']) =
      (decodeContents? (escaped rest ++ ['"'])).map (c :: ·) := by
  rw [escaped_cons, List.append_assoc]
  by_cases quote : c = '"'
  · subst quote
    rfl
  · rw [if_neg quote, List.cons_append, List.nil_append, decodeContents?, if_neg quote]
    rintro d more rfl
    exact absurd rfl notBackslash

theorem decodeContents?_escaped {contents : List Char} (noBackslash : '\\' ∉ contents) :
    decodeContents? (escaped contents ++ ['"']) = some contents := by
  induction contents with
  | nil => rfl
  | cons c rest induction =>
      obtain ⟨notHere, notLater⟩ := List.ne_and_not_mem_of_not_mem_cons noBackslash
      rw [decodeContents?_escaped_cons notHere.symm, induction notLater]
      rfl

/-- A backslash is lost, by itself or with what it is put before, as a string is read. -/
theorem length_decodeContents?_escaped {contents decoded : List Char}
    (read : decodeContents? (escaped contents ++ ['"']) = some decoded) :
    decoded.length ≤ contents.length ∧ (decoded.length = contents.length → '\\' ∉ contents) := by
  -- On the length: a backslash is read together with the character after it.
  induction size : contents.length using Nat.strongRecOn generalizing contents decoded with
  | ind size induction =>
      subst size
      match contents with
      | [] =>
          cases read
          simp
      | c :: rest =>
          by_cases backslash : c = '\\'
          · subst backslash
            match rest with
            | [] => cases read
            | d :: rest =>
                by_cases quote : d = '"'
                · subst quote
                  simp [escaped_cons, decodeContents?] at read
                · rw [escaped_cons, escaped_cons, if_neg quote] at read
                  obtain ⟨inner, inner_read, rfl⟩ := Option.map_eq_some_iff.mp read
                  obtain ⟨le, -⟩ :=
                    induction rest.length (Nat.lt_add_of_pos_right Nat.two_pos) inner_read rfl
                  simp only [List.length_cons]
                  exact ⟨by omega, by omega⟩
          · rw [decodeContents?_escaped_cons backslash] at read
            obtain ⟨inner, inner_read, rfl⟩ := Option.map_eq_some_iff.mp read
            obtain ⟨le, eq⟩ := induction rest.length (Nat.lt_succ_self _) inner_read rfl
            refine ⟨Nat.succ_le_succ le, fun same => ?_⟩
            exact List.not_mem_cons_of_ne_of_not_mem (Ne.symm backslash) (eq (Nat.succ.inj same))

theorem rereadText?_eq (text : String) :
    rereadText? text =
      (decodeContents? (escaped text.toList ++ ['"'])).map String.ofList := by
  rw [rereadText?, toList_quoteString]
  rfl

theorem rereadText?_of_no_backslash {text : String} (noBackslash : '\\' ∉ text.toList) :
    rereadText? text = some text := by
  rw [rereadText?_eq, decodeContents?_escaped noBackslash, Option.map_some, String.ofList_toList]

theorem getD_rereadText?_eq_iff (text : String) :
    (rereadText? text).getD "" = text ↔ '\\' ∉ text.toList := by
  constructor
  · intro same
    rw [rereadText?_eq] at same
    cases read : decodeContents? (escaped text.toList ++ ['"']) with
    | none =>
        rw [read] at same
        subst same
        simp
    | some decoded =>
        rw [read] at same
        refine (length_decodeContents?_escaped read).2 ?_
        rw [← same]
        simp
  · intro noBackslash
    rw [rereadText?_of_no_backslash noBackslash, Option.getD_some]

theorem map_eq_self_iff {α : Type} {function : α → α} {list : List α} :
    list.map function = list ↔ ∀ element ∈ list, function element = element := by
  rw [← List.map_inj_left, List.map_id']

mutual

theorem nesting_reread : ∀ value : Value, value.reread.nesting = value.nesting
  | none | auto | bool _ | int _ | float _ _ | str _ | symbol _ _ | func _ | content _ => by
      simp only [reread, nesting]
  | array items => by rw [reread, nesting, nesting, nestingOfItems_reread items]
  | dict entries => by rw [reread, nesting, nesting, nestingOfEntries_reread entries]

theorem nestingOfItems_reread : ∀ items : List Value,
    nestingOfItems (rereadItems items) = nestingOfItems items
  | [] => rfl
  | item :: rest => by
      rw [rereadItems, nestingOfItems, nestingOfItems, nesting_reread item,
        nestingOfItems_reread rest]

theorem nestingOfEntries_reread : ∀ entries : List (String × Value),
    nestingOfEntries (rereadEntries entries) = nestingOfEntries entries
  | [] => rfl
  | (_, value) :: rest => by
      rw [rereadEntries, nestingOfEntries, nestingOfEntries, nesting_reread value,
        nestingOfEntries_reread rest]

end

mutual

theorem integers_reread : ∀ value : Value, value.reread.integers = value.integers
  | none | auto | bool _ | int _ | float _ _ | str _ | symbol _ _ | func _ | content _ => by
      simp only [reread, integers]
  | array items => by rw [reread, integers, integers, integersOfItems_reread items]
  | dict entries => by rw [reread, integers, integers, integersOfEntries_reread entries]

theorem integersOfItems_reread : ∀ items : List Value,
    integersOfItems (rereadItems items) = integersOfItems items
  | [] => rfl
  | item :: rest => by
      rw [rereadItems, integersOfItems, integersOfItems, integers_reread item,
        integersOfItems_reread rest]

theorem integersOfEntries_reread : ∀ entries : List (String × Value),
    integersOfEntries (rereadEntries entries) = integersOfEntries entries
  | [] => rfl
  | (key, value) :: rest => by
      rw [rereadEntries, integersOfEntries, integersOfEntries, integers_reread value,
        integersOfEntries_reread rest]

end

theorem IsWritable.reread {value : Value} (writable : value.IsWritable) :
    value.reread.IsWritable := by
  unfold IsWritable
  rw [integers_reread]
  exact writable

namespace IsPlain

variable {value : Value}

/-- A value is read as it is if and only if there is no backslash in its strings. -/
theorem reread_eq_self_iff (plain : value.IsPlain) :
    value.reread = value ↔ ∀ text ∈ value.strings, '\\' ∉ text.toList := by
  induction plain with
  | none | auto | bool | int => simp [reread, strings]
  | str text => simp [reread, strings, getD_rereadText?_eq_iff]
  | @array items plain induction =>
      rw [reread, strings, rereadItems_eq, stringsOfItems_eq, Value.array.injEq, map_eq_self_iff]
      simp only [List.mem_flatMap]
      constructor
      · rintro same text ⟨item, member, inside⟩
        exact (induction item member).mp (same item member) text inside
      · intro noBackslash item member
        exact (induction item member).mpr fun text inside =>
          noBackslash text ⟨item, member, inside⟩
  | @dict entries distinct names plain induction =>
      rw [reread, strings, rereadEntries_eq, stringsOfEntries_eq, Value.dict.injEq, map_eq_self_iff]
      simp only [List.mem_flatMap]
      constructor
      · rintro same text ⟨entry, member, inside⟩
        exact (induction entry member).mp (congrArg Prod.snd (same entry member)) text inside
      · intro noBackslash entry member
        have kept := (induction entry member).mpr fun text inside =>
          noBackslash text ⟨entry, member, inside⟩
        rw [kept]

theorem reread (plain : value.IsPlain) : value.reread.IsPlain := by
  induction plain with
  | none => exact .none
  | auto => exact .auto
  | bool value => exact .bool value
  | int value => exact .int value
  | str text => exact .str _
  | array plain induction =>
      rw [Value.reread, rereadItems_eq]
      exact .array (List.forall_mem_map.mpr induction)
  | dict distinct names plain induction =>
      rw [Value.reread, rereadEntries_eq]
      refine .dict ?_ (List.forall_mem_map.mpr names) (List.forall_mem_map.mpr induction)
      rw [Entries.keys, List.map_map]
      exact distinct

end IsPlain

end Value

end EquationMap
