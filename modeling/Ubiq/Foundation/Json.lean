import Ubiq.Foundation.Format
import Ubiq.Foundation.JsonString

/-!
# JSON texts

The values of RFC 8259 with strings of an arbitrary type, a reader for texts and a printer without
white space. A text is read with its strings and numbers as they are written, so that a dialect
decides afterwards what they mean.

`Reads text value` says that the reader takes the text for the value, whatever follows. It is
closed under the constructors, so that `parse_render` follows by induction over the value;
`wellFormed_of_parse` is the converse: what is read can be printed.
-/

namespace Ubiq.Foundation.Json

/-- A JSON value. -/
inductive Value (σ : Type)
  | null
  | bool (value : Bool)
  | number (text : Bytes)
  | string (text : σ)
  | array (items : List (Value σ))
  | object (members : List (σ × Value σ))
deriving Repr

/-- What a recursion over values does at each constructor. -/
structure Algebra (σ β : Type) where
  null : β
  bool : Bool → β
  number : Bytes → β
  string : σ → β
  array : List β → β
  object : List (σ × β) → β

namespace Value

variable {σ β : Type}

mutual

/-- The recursion over values. -/
def fold (algebra : Algebra σ β) : Value σ → β
  | null => algebra.null
  | bool value => algebra.bool value
  | number text => algebra.number text
  | string text => algebra.string text
  | array items => algebra.array (foldItems algebra items)
  | object members => algebra.object (foldMembers algebra members)

/-- The recursion over the items of an array. -/
def foldItems (algebra : Algebra σ β) : List (Value σ) → List β
  | [] => []
  | item :: rest => fold algebra item :: foldItems algebra rest

/-- The recursion over the members of an object. -/
def foldMembers (algebra : Algebra σ β) : List (σ × Value σ) → List (σ × β)
  | [] => []
  | (key, value) :: rest => (key, fold algebra value) :: foldMembers algebra rest

end

theorem foldItems_eq_map (algebra : Algebra σ β) (items : List (Value σ)) :
    foldItems algebra items = items.map (fold algebra) := by
  induction items with
  | nil => rfl
  | cons item rest ih => rw [foldItems, ih, List.map_cons]

theorem foldMembers_eq_map (algebra : Algebra σ β) (members : List (σ × Value σ)) :
    foldMembers algebra members = members.map fun member => (member.1, fold algebra member.2) := by
  induction members with
  | nil => rfl
  | cons member rest ih => rw [foldMembers, ih, List.map_cons]

@[simp] theorem fold_array (algebra : Algebra σ β) (items : List (Value σ)) :
    fold algebra (array items) = algebra.array (items.map (fold algebra)) := by
  rw [fold, foldItems_eq_map]

@[simp] theorem fold_object (algebra : Algebra σ β) (members : List (σ × Value σ)) :
    fold algebra (object members) =
      algebra.object (members.map fun member => (member.1, fold algebra member.2)) := by
  rw [fold, foldMembers_eq_map]

/-- Induction over values, with the hypothesis for every item and every member. -/
theorem induction {motive : Value σ → Prop} (null : motive null) (bool : ∀ b, motive (bool b))
    (number : ∀ text, motive (number text)) (string : ∀ text, motive (string text))
    (array : ∀ items, (∀ item ∈ items, motive item) → motive (array items))
    (object : ∀ members, (∀ member ∈ members, motive member.2) → motive (object members)) :
    ∀ value, motive value := by
  intro value
  refine @Value.rec σ motive (fun items => ∀ item ∈ items, motive item)
    (fun members => ∀ member ∈ members, motive member.2) (fun member => motive member.2)
    null bool number string array object ?_ ?_ ?_ ?_ ?_ value
  · simp
  · intro item rest hitem hrest
    exact List.forall_mem_cons.mpr ⟨hitem, hrest⟩
  · simp
  · intro member rest hmember hrest
    exact List.forall_mem_cons.mpr ⟨hmember, hrest⟩
  · intro key value hvalue
    exact hvalue

/-- Arrays and objects are one deeper than what they hold. -/
def nesting : Algebra σ Nat where
  null := 0
  bool _ := 0
  number _ := 0
  string _ := 0
  array depths := depths.foldr max 0 + 1
  object depths := (depths.map Prod.snd).foldr max 0 + 1

/-- How deep arrays and objects are nested. -/
def depth (value : Value σ) : Nat := value.fold nesting

/-- The nesting of a list of values. -/
def depths (values : List (Value σ)) : Nat :=
  (values.map depth).foldr max 0

theorem depths_cons (value : Value σ) (rest : List (Value σ)) :
    depths (value :: rest) = max value.depth (depths rest) := rfl

theorem depth_le_depths {value : Value σ} {values : List (Value σ)} (h : value ∈ values) :
    value.depth ≤ depths values := by
  induction values with
  | nil => cases h
  | cons first rest ih =>
      rw [depths_cons]
      rcases List.mem_cons.mp h with rfl | hrest
      · exact Nat.le_max_left _ _
      · exact Nat.le_trans (ih hrest) (Nat.le_max_right _ _)

theorem depth_array (items : List (Value σ)) : (array items).depth = depths items + 1 := by
  rw [depth, fold_array]
  rfl

theorem depth_object (members : List (σ × Value σ)) :
    (object members).depth = depths (members.map Prod.snd) + 1 := by
  simp only [depth, fold_object, depths, nesting, List.map_map]
  rfl

end Value

/-! ## Tokens -/

/-- White space. -/
def isBlank (c : UInt8) : Bool := c = 32 || c = 9 || c = 10 || c = 13

/-- Drop white space. -/
def skip (text : Bytes) : Bytes :=
  text.dropWhile isBlank

/-- A decimal digit. -/
def isDigit (c : UInt8) : Bool := 48 ≤ c && c ≤ 57

/-- The bytes that occur in numbers. -/
def isNumeric (c : UInt8) : Bool :=
  isDigit c || c = 43 || c = 45 || c = 46 || c = 69 || c = 101

/-- At least one digit and nothing else. -/
def isDigits (text : Bytes) : Bool :=
  text ≠ [] && text.all isDigit

/-- The exponent of a number, if there is one. -/
def isExponent : Bytes → Bool
  | [] => true
  | c :: rest =>
      (c = 69 || c = 101) &&
        match rest with
        | [] => false
        | sign :: digits =>
            if sign = 43 || sign = 45 then isDigits digits else isDigits (sign :: digits)

/-- The fraction and the exponent of a number, if there are any. -/
def isFraction : Bytes → Bool
  | [] => true
  | c :: rest =>
      if c = 46 then isDigits (rest.takeWhile isDigit) && isExponent (rest.dropWhile isDigit)
      else isExponent (c :: rest)

/-- A number without a sign: no zero in front of another digit. -/
def isUnsigned (text : Bytes) : Bool :=
  let whole := text.takeWhile isDigit
  isDigits whole && (whole = [48] || whole.head? ≠ some 48) && isFraction (text.dropWhile isDigit)

/-- A number. -/
def isNumber (text : Bytes) : Bool :=
  match text with
  | [] => false
  | c :: rest => if c = 45 then isUnsigned rest else isUnsigned (c :: rest)

/-! ## Reading -/

/-- A literal name or a number. -/
def scalar (text : Bytes) : Option (Value (List Chunk) × Bytes) :=
  match Format.strip (ascii "null") text with
  | some rest => some (.null, rest)
  | none =>
      match Format.strip (ascii "true") text with
      | some rest => some (.bool true, rest)
      | none =>
          match Format.strip (ascii "false") text with
          | some rest => some (.bool false, rest)
          | none =>
              if isNumber (text.takeWhile isNumeric) then
                some (.number (text.takeWhile isNumeric), text.dropWhile isNumeric)
              else none

/-- Items with commas between them, up to the closing bracket. -/
def sequence {β : Type} (item : Bytes → Option (β × Bytes)) (close : UInt8) :
    Nat → Bytes → Option (List β × Bytes)
  | 0, _ => none
  | fuel + 1, text =>
      match item text with
      | none => none
      | some (first, rest) =>
          match skip rest with
          | [] => none
          | c :: rest =>
              if c = 44 then
                (sequence item close fuel (skip rest)).map fun (more, rest) => (first :: more, rest)
              else if c = close then some ([first], rest)
              else none

/-- The items between brackets; `text` is what follows the opening one. -/
def bracketed {β : Type} (item : Bytes → Option (β × Bytes)) (close : UInt8) (text : Bytes) :
    Option (List β × Bytes) :=
  match skip text with
  | [] => none
  | c :: rest => if c = close then some ([], rest) else sequence item close text.length (c :: rest)

/-- A member of an object, with the text of its value. -/
structure Member where
  key : List Chunk
  source : Bytes
  value : Value (List Chunk)

/-- A key, a colon and a value. -/
def member (value : Bytes → Option (Value (List Chunk) × Bytes)) :
    Bytes → Option (Member × Bytes)
  | [] => none
  | c :: rest =>
      if c = 34 then
        match scanString rest with
        | none => none
        | some (key, rest) =>
            match skip rest with
            | [] => none
            | c :: rest =>
                if c = 58 then
                  (value (skip rest)).map fun (result, final) =>
                    ({ key := key
                       source := (skip rest).take ((skip rest).length - final.length)
                       value := result }, final)
                else none
      else none

/-- The value in front of a text, nested at most `fuel` deep. -/
def value : Nat → Bytes → Option (Value (List Chunk) × Bytes)
  | _, [] => none
  | fuel, c :: rest =>
      if c = 34 then (scanString rest).map fun (body, rest) => (.string body, rest)
      else if c = 91 then
        match fuel with
        | 0 => none
        | fuel + 1 =>
            (bracketed (value fuel) 93 rest).map fun (items, rest) => (.array items, rest)
      else if c = 123 then
        match fuel with
        | 0 => none
        | fuel + 1 =>
            (bracketed (member (value fuel)) 125 rest).map fun (members, rest) =>
              (.object (members.map fun member => (member.key, member.value)), rest)
      else scalar (c :: rest)

/-- A whole text. Nesting takes a byte a level, so the length is enough. -/
def parse (text : Bytes) : Option (Value (List Chunk)) :=
  match value text.length (skip text) with
  | none => none
  | some (result, rest) => if skip rest = [] then some result else none

/-- The members of the object in front of a text. -/
def members (text : Bytes) : Option (List Member) :=
  match skip text with
  | [] => none
  | c :: rest =>
      if c = 123 then (bracketed (member (value text.length)) 125 rest).map Prod.fst else none

/-! ## Printing -/

/-- Texts with commas between them. -/
def commas : List Bytes → Bytes
  | [] => []
  | [text] => text
  | text :: rest => text ++ 44 :: commas rest

/-- A member of an object without white space. -/
def entry (key : List Chunk) (text : Bytes) : Bytes :=
  quoted key ++ 58 :: text

/-- The printer at each constructor. -/
def printer : Algebra (List Chunk) Bytes where
  null := ascii "null"
  bool b := if b then ascii "true" else ascii "false"
  number text := text
  string := quoted
  array texts := 91 :: (commas texts ++ [93])
  object texts := 123 :: (commas (texts.map fun member => entry member.1 member.2) ++ [125])

/-- The text of a value without white space. -/
def render (value : Value (List Chunk)) : Bytes := value.fold printer

/-- The grammar of strings and numbers at each constructor. -/
def grammar : Algebra (List Chunk) Prop where
  null := True
  bool _ := True
  number text := isNumber text = true ∧ text.all isNumeric = true
  string body := ∀ chunk ∈ body, chunk.wellFormed = true
  array checks := ∀ check ∈ checks, check
  object checks := ∀ check ∈ checks, (∀ chunk ∈ check.1, chunk.wellFormed = true) ∧ check.2

/-- The strings and the numbers of a value keep to the grammar. -/
def WellFormed (value : Value (List Chunk)) : Prop := value.fold grammar

theorem render_array (items : List (Value (List Chunk))) :
    render (.array items) = 91 :: (commas (items.map render) ++ [93]) := by
  rw [render, Value.fold_array]
  rfl

theorem render_object (members : List (List Chunk × Value (List Chunk))) :
    render (.object members) =
      123 :: (commas (members.map fun member => entry member.1 (render member.2)) ++ [125]) := by
  simp only [render, Value.fold_object, printer, List.map_map]
  rfl

variable {text rest : Bytes} {fuel : Nat} {result : Value (List Chunk)} {c : UInt8}

theorem length_mem_le_commas {texts : List Bytes} (h : text ∈ texts) :
    text.length ≤ (commas texts).length := by
  fun_induction commas texts with
  | case1 => cases h
  | case2 only => rw [List.mem_singleton.mp h]
  | case3 first rest _ ih =>
      rw [List.length_append, List.length_cons]
      rcases List.mem_cons.mp h with rfl | hrest
      · exact Nat.le_add_right _ _
      · have hle := ih hrest
        omega

/-- A member is shorter than its object. -/
theorem length_render_le {members : List (List Chunk × Value (List Chunk))}
    {member : List Chunk × Value (List Chunk)} (h : member ∈ members) :
    (render member.2).length ≤ (render (.object members)).length := by
  have hentry : entry member.1 (render member.2) ∈
      members.map fun member => entry member.1 (render member.2) :=
    List.mem_map.mpr ⟨member, h, rfl⟩
  have hcommas := length_mem_le_commas hentry
  rw [render_object, List.length_cons, List.length_append]
  rw [entry, List.length_append, List.length_cons] at hcommas
  omega

theorem wellFormed_array (items : List (Value (List Chunk))) :
    WellFormed (.array items) ↔ ∀ item ∈ items, WellFormed item := by
  rw [WellFormed, Value.fold_array]
  exact List.forall_mem_map

theorem wellFormed_object (members : List (List Chunk × Value (List Chunk))) :
    WellFormed (.object members) ↔
      ∀ member ∈ members, (∀ chunk ∈ member.1, chunk.wellFormed = true) ∧ WellFormed member.2 := by
  rw [WellFormed, Value.fold_object]
  exact List.forall_mem_map

/-! ## Printed texts are read back -/

/-- No number goes on in the text. -/
def Ends (rest : Bytes) : Prop :=
  ∀ c ∈ rest.head?, isNumeric c = false

/-- The text begins with something else than white space or a closing bracket. -/
def Begins (text : Bytes) : Prop :=
  ∃ c rest, text = c :: rest ∧ isBlank c = false ∧ c ≠ 93 ∧ c ≠ 125

theorem Begins.skip (h : Begins text) (rest : Bytes) :
    skip (text ++ rest) = text ++ rest := by
  obtain ⟨c, more, rfl, hblank, -⟩ := h
  rw [List.cons_append, Json.skip, List.dropWhile_cons_of_neg (by simp [hblank])]

/-- A parser takes the text for the result, whatever follows. -/
def Takes {β : Type} (item : Bytes → Option (β × Bytes)) (text : Bytes) (result : β) : Prop :=
  ∀ rest, Ends rest → item (text ++ rest) = some (result, rest)

theorem commas_cons (text next : Bytes) (rest : List Bytes) :
    commas (text :: next :: rest) = text ++ 44 :: commas (next :: rest) := rfl

theorem skip_comma (rest : Bytes) : skip (44 :: rest) = 44 :: rest := rfl

theorem length_le_commas (texts : List Bytes) (h : ∀ text ∈ texts, Begins text) :
    texts.length ≤ (commas texts).length := by
  induction texts with
  | nil => rfl
  | cons text rest ih =>
      obtain ⟨htext, hrest⟩ := List.forall_mem_cons.mp h
      obtain ⟨c, more, rfl, -⟩ := htext
      have hlen := ih hrest
      cases rest with
      | nil => simp [commas]
      | cons next others =>
          rw [commas_cons]
          simp only [List.length_append, List.length_cons] at hlen ⊢
          omega

/-- Items with commas between them begin like the first one. -/
theorem begins_commas (h : Begins text) (rest : List Bytes) :
    Begins (commas (text :: rest)) := by
  obtain ⟨c, more, rfl, hc⟩ := h
  cases rest with
  | nil => exact ⟨c, more, rfl, hc⟩
  | cons next others => exact ⟨c, _, rfl, hc⟩

/-- A closing bracket is neither white space nor part of a number, and no comma. -/
structure Closes (close : UInt8) : Prop where
  blank : isBlank close = false
  numeric : isNumeric close = false
  comma : close ≠ 44
  bracket : close = 93 ∨ close = 125

section Sequences

variable {β : Type} {item : Bytes → Option (β × Bytes)} {close : UInt8}

theorem sequence_commas (hclose : Closes close) {entries : List (Bytes × β)} (hne : entries ≠ [])
    (h : ∀ e ∈ entries, Begins e.1 ∧ Takes item e.1 e.2) (rest : Bytes)
    (hfuel : entries.length ≤ fuel) :
    sequence item close fuel (commas (entries.map Prod.fst) ++ close :: rest) =
      some (entries.map Prod.snd, rest) := by
  induction entries generalizing fuel with
  | nil => exact absurd rfl hne
  | cons first entries ih =>
      obtain ⟨hfirst, hentries⟩ := List.forall_mem_cons.mp h
      cases fuel with
      | zero => simp at hfuel
      | succ fuel =>
          cases entries with
          | nil =>
              have hread := hfirst.2 (close :: rest) (by simpa [Ends] using hclose.numeric)
              simp only [List.map_cons, List.map_nil, commas, sequence, hread, skip,
                List.dropWhile_cons_of_neg, hclose.blank, Bool.false_eq_true, not_false_eq_true,
                if_neg hclose.comma, if_true]
          | cons next others =>
              have hfollow : sequence item close fuel
                  (commas (next.1 :: others.map Prod.fst) ++ close :: rest) =
                    some ((next :: others).map Prod.snd, rest) :=
                ih (List.cons_ne_nil _ _) hentries (Nat.le_of_succ_le_succ hfuel)
              have hread := hfirst.2
                (44 :: (commas (next.1 :: others.map Prod.fst) ++ close :: rest))
                (by simp only [Ends, List.head?_cons, Option.mem_some_iff, forall_eq']; decide)
              have hskip := (begins_commas (hentries next List.mem_cons_self).1
                (others.map Prod.fst)).skip (close :: rest)
              rw [List.map_cons, List.map_cons, commas_cons, List.append_assoc, List.cons_append]
              simp only [sequence, hread, skip_comma, if_true, hskip, hfollow, Option.map_some,
                List.map_cons]

/-- **Items between brackets are read back.** -/
theorem bracketed_commas (hclose : Closes close) {entries : List (Bytes × β)}
    (h : ∀ e ∈ entries, Begins e.1 ∧ Takes item e.1 e.2) (rest : Bytes) :
    bracketed item close (commas (entries.map Prod.fst) ++ close :: rest) =
      some (entries.map Prod.snd, rest) := by
  cases entries with
  | nil =>
      simp only [List.map_nil, commas, List.nil_append, bracketed, skip,
        List.dropWhile_cons_of_neg, hclose.blank, Bool.false_eq_true, not_false_eq_true, if_true]
  | cons first others =>
      have hbegins := begins_commas (h first List.mem_cons_self).1 (others.map Prod.fst)
      have hfuel : (first :: others).length ≤
          (commas ((first :: others).map Prod.fst) ++ close :: rest).length := by
        have hlen := length_le_commas ((first :: others).map Prod.fst)
          (List.forall_mem_map.mpr fun e he => (h e he).1)
        rw [List.length_map] at hlen
        rw [List.length_append]
        omega
      have hread := sequence_commas hclose (List.cons_ne_nil first others) h rest hfuel
      rw [bracketed]
      rw [List.map_cons] at hread ⊢
      rw [hbegins.skip]
      obtain ⟨c, more, htext, -, hbracket⟩ := hbegins
      have hne : c ≠ close := by
        rcases hclose.bracket with rfl | rfl
        · exact hbracket.1
        · exact hbracket.2
      rw [htext, List.cons_append] at hread ⊢
      simp only [if_neg hne, hread]

/-- Brackets are refused whose first item is. -/
theorem bracketed_eq_none (hclose : Closes close) (hbegins : Begins text) (hitem : item text = none) :
    bracketed item close text = none := by
  have hskip := hbegins.skip []
  rw [List.append_nil] at hskip
  rw [bracketed, hskip]
  obtain ⟨c, more, rfl, -, hbracket⟩ := hbegins
  have hne : c ≠ close := by
    rcases hclose.bracket with rfl | rfl
    · exact hbracket.1
    · exact hbracket.2
  simp only [if_neg hne, List.length_cons, sequence, hitem]

end Sequences

/-- The reader takes the text for the value, whatever follows. -/
structure Reads (text : Bytes) (result : Value (List Chunk)) : Prop where
  begins : Begins text
  depth_le : result.depth ≤ text.length
  takes : ∀ fuel, result.depth ≤ fuel → Takes (value fuel) text result

theorem begins_quoted (body : List Chunk) (rest : Bytes) : Begins (quoted body ++ rest) :=
  ⟨34, bodyText body ++ [34] ++ rest, by simp [quoted], by decide, by decide, by decide⟩

theorem quoted_append (body : List Chunk) (rest : Bytes) :
    quoted body ++ rest = 34 :: (bodyText body ++ 34 :: rest) := by
  simp [quoted]

theorem reads_string {body : List Chunk} (h : ∀ chunk ∈ body, chunk.wellFormed = true) :
    Reads (quoted body) (.string body) where
  begins := by simpa using begins_quoted body []
  depth_le := Nat.zero_le _
  takes := by
    intro fuel _ rest _
    rw [quoted_append, value.eq_def]
    simp only [if_true, scanString_bodyText h, Option.map_some]

theorem closes_array : Closes 93 :=
  ⟨by decide, by decide, by decide, Or.inl rfl⟩

theorem closes_object : Closes 125 :=
  ⟨by decide, by decide, by decide, Or.inr rfl⟩

/-- A list of texts that are read is as long as it is deep. -/
theorem depths_le_commas (entries : List (Bytes × Value (List Chunk)))
    (h : ∀ e ∈ entries, e.2.depth ≤ e.1.length) :
    Value.depths (entries.map Prod.snd) ≤ (commas (entries.map Prod.fst)).length := by
  induction entries with
  | nil => exact Nat.zero_le _
  | cons first entries ih =>
      obtain ⟨hfirst, hentries⟩ := List.forall_mem_cons.mp h
      have hrest := ih hentries
      rw [List.map_cons, Value.depths_cons]
      cases entries with
      | nil => simpa [commas, Value.depths] using hfirst
      | cons next others =>
          simp only [List.map_cons, commas_cons, List.length_append, List.length_cons] at hrest ⊢
          omega

theorem reads_array {entries : List (Bytes × Value (List Chunk))}
    (h : ∀ e ∈ entries, Reads e.1 e.2) :
    Reads (91 :: (commas (entries.map Prod.fst) ++ [93])) (.array (entries.map Prod.snd)) where
  begins := ⟨91, _, rfl, by decide, by decide, by decide⟩
  depth_le := by
    have hlen := depths_le_commas entries fun e he => (h e he).depth_le
    rw [Value.depth_array, List.length_cons, List.length_append]
    omega
  takes := by
    intro fuel hfuel rest _
    rw [Value.depth_array] at hfuel
    cases fuel with
    | zero => simp at hfuel
    | succ fuel =>
        have hitems : ∀ e ∈ entries, Begins e.1 ∧ Takes (value fuel) e.1 e.2 := by
          intro e he
          have hdepth := Value.depth_le_depths (List.mem_map_of_mem (f := Prod.snd) he)
          exact ⟨(h e he).begins, (h e he).takes fuel (by omega)⟩
        have hread := bracketed_commas closes_array hitems rest
        rw [List.cons_append, List.append_assoc, List.singleton_append, value.eq_def]
        simp only [hread, Option.map_some]
        rfl

/-- A key and a value without white space. -/
theorem takes_entry {item : Bytes → Option (Value (List Chunk) × Bytes)} {key : List Chunk}
    (hkey : ∀ chunk ∈ key, chunk.wellFormed = true) (hbegins : Begins text)
    (h : Takes item text result) :
    Takes (member item) (entry key text) ⟨key, text, result⟩ := by
  intro rest hends
  have hcolon : skip (58 :: (text ++ rest)) = 58 :: (text ++ rest) := rfl
  rw [entry, List.append_assoc, quoted_append, List.cons_append, member]
  simp only [if_true, scanString_bodyText hkey, hcolon, hbegins.skip, h rest hends,
    Option.map_some, List.length_append, Nat.add_sub_cancel, List.take_left]

/-- Members without white space are read back, with the texts of their values. -/
theorem bracketed_members {entries : List (List Chunk × Bytes × Value (List Chunk))}
    (h : ∀ e ∈ entries, (∀ chunk ∈ e.1, chunk.wellFormed = true) ∧ Reads e.2.1 e.2.2)
    (hfuel : ∀ e ∈ entries, e.2.2.depth ≤ fuel) (rest : Bytes) :
    bracketed (member (value fuel)) 125
        (commas (entries.map fun e => entry e.1 e.2.1) ++ 125 :: rest) =
      some (entries.map fun e => ⟨e.1, e.2.1, e.2.2⟩, rest) := by
  have hitems : ∀ e ∈ entries.map fun e => (entry e.1 e.2.1, Member.mk e.1 e.2.1 e.2.2),
      Begins e.1 ∧ Takes (member (value fuel)) e.1 e.2 := by
    refine List.forall_mem_map.mpr fun e he => ⟨begins_quoted _ _, ?_⟩
    obtain ⟨hkey, hreads⟩ := h e he
    exact takes_entry hkey hreads.begins (hreads.takes fuel (hfuel e he))
  simpa only [List.map_map, Function.comp_def] using bracketed_commas closes_object hitems rest

theorem reads_object {entries : List (List Chunk × Bytes × Value (List Chunk))}
    (h : ∀ e ∈ entries, (∀ chunk ∈ e.1, chunk.wellFormed = true) ∧ Reads e.2.1 e.2.2) :
    Reads (123 :: (commas (entries.map fun e => entry e.1 e.2.1) ++ [125]))
      (.object (entries.map fun e => (e.1, e.2.2))) where
  begins := ⟨123, _, rfl, by decide, by decide, by decide⟩
  depth_le := by
    have hlen := depths_le_commas (entries.map fun e => (entry e.1 e.2.1, e.2.2)) (by
      refine List.forall_mem_map.mpr fun e he => ?_
      have hdepth := (h e he).2.depth_le
      simp only [entry, List.length_append, List.length_cons]
      omega)
    simp only [List.map_map, Function.comp_def] at hlen
    rw [Value.depth_object, List.length_cons, List.length_append, List.map_map]
    simp only [Function.comp_def]
    omega
  takes := by
    intro fuel hfuel rest _
    rw [Value.depth_object, List.map_map] at hfuel
    cases fuel with
    | zero => simp at hfuel
    | succ fuel =>
        have hread := bracketed_members h (fun e he => (Value.depth_le_depths
          (List.mem_map_of_mem he)).trans (Nat.le_of_succ_le_succ hfuel)) rest
        rw [List.cons_append, List.append_assoc, List.singleton_append, value.eq_def]
        simp only [hread, Option.map_some, List.map_map, Function.comp_def]
        rfl

/-! ### Scalars -/

theorem value_eq_scalar (hquote : c ≠ 34) (harray : c ≠ 91) (hobject : c ≠ 123) (fuel : Nat)
    (rest : Bytes) : value fuel (c :: rest) = scalar (c :: rest) := by
  rw [value.eq_def]
  simp only [if_neg hquote, if_neg harray, if_neg hobject]

/-- A text that begins no string, array or object is read as `scalar` reads it. -/
theorem reads_of_scalar {more : Bytes} (hblank : isBlank c = false)
    (hbegins : c ≠ 34 ∧ c ≠ 91 ∧ c ≠ 93 ∧ c ≠ 123 ∧ c ≠ 125) (hdepth : result.depth = 0)
    (h : ∀ rest, Ends rest → scalar (c :: more ++ rest) = some (result, rest)) :
    Reads (c :: more) result where
  begins := ⟨c, more, rfl, hblank, hbegins.2.2.1, hbegins.2.2.2.2⟩
  depth_le := hdepth ▸ Nat.zero_le _
  takes := by
    intro fuel _ rest hends
    rw [← h rest hends, List.cons_append,
      value_eq_scalar hbegins.1 hbegins.2.1 hbegins.2.2.2.1]

theorem reads_null : Reads (ascii "null") .null := by
  refine reads_of_scalar (by decide) (by decide) rfl fun rest _ => ?_
  show scalar (ascii "null" ++ rest) = _
  rw [scalar, Format.strip_append]

theorem reads_bool (b : Bool) :
    Reads (if b then ascii "true" else ascii "false") (.bool b) := by
  cases b with
  | false =>
      refine reads_of_scalar (by decide) (by decide) rfl fun rest _ => ?_
      have hnull : Format.strip (ascii "null") (ascii "false" ++ rest) = none := rfl
      have htrue : Format.strip (ascii "true") (ascii "false" ++ rest) = none := rfl
      show scalar (ascii "false" ++ rest) = _
      simp only [scalar, hnull, htrue, Format.strip_append]
  | true =>
      refine reads_of_scalar (by decide) (by decide) rfl fun rest _ => ?_
      have hnull : Format.strip (ascii "null") (ascii "true" ++ rest) = none := rfl
      show scalar (ascii "true" ++ rest) = _
      simp only [scalar, hnull, Format.strip_append]

/-- A byte of a number begins no other token. -/
theorem numeric_ne (h : isNumeric c = true) (other : UInt8) (hother : isNumeric other = false) :
    c ≠ other := by
  rintro rfl
  exact absurd h (by simp [hother])

theorem strip_of_head_ne {expected : UInt8} (h : c ≠ expected) (more rest : Bytes) :
    Format.strip (expected :: more) (c :: rest) = none := by
  simp [Format.strip, h]

theorem reads_number (h : isNumber text = true) (hall : text.all isNumeric = true) :
    Reads text (.number text) := by
  cases text with
  | nil => exact absurd h (by decide)
  | cons c more =>
      have hc : isNumeric c = true := (Bool.and_eq_true_iff.mp (List.all_cons ▸ hall)).1
      have hblank : isBlank c = false := by
        simp only [isBlank, Bool.or_eq_false_iff, decide_eq_false_iff_not]
        exact ⟨⟨⟨numeric_ne hc 32 (by decide), numeric_ne hc 9 (by decide)⟩,
          numeric_ne hc 10 (by decide)⟩, numeric_ne hc 13 (by decide)⟩
      refine reads_of_scalar hblank ⟨numeric_ne hc 34 (by decide), numeric_ne hc 91 (by decide),
        numeric_ne hc 93 (by decide), numeric_ne hc 123 (by decide), numeric_ne hc 125 (by decide)⟩
        rfl fun rest hends => ?_
      have htake : (c :: more ++ rest).takeWhile isNumeric = c :: more ∧
          (c :: more ++ rest).dropWhile isNumeric = rest := by
        have hpos : ∀ byte ∈ c :: more, isNumeric byte = true := List.all_eq_true.mp hall
        rw [List.takeWhile_append_of_pos hpos, List.dropWhile_append_of_pos hpos]
        cases rest with
        | nil => simp
        | cons next others =>
            have hnext : isNumeric next = false := hends next rfl
            simp [hnext]
      have hnull : Format.strip (ascii "null") (c :: more ++ rest) = none :=
        strip_of_head_ne (numeric_ne hc 110 (by decide)) _ _
      have htrue : Format.strip (ascii "true") (c :: more ++ rest) = none :=
        strip_of_head_ne (numeric_ne hc 116 (by decide)) _ _
      have hfalse : Format.strip (ascii "false") (c :: more ++ rest) = none :=
        strip_of_head_ne (numeric_ne hc 102 (by decide)) _ _
      simp only [scalar, hnull, htrue, hfalse, htake.1, htake.2, h, if_true]

/-! ### Whole values -/

/-- **A well-formed value is read back from its text.** -/
theorem reads_render : WellFormed result → Reads (render result) result := by
  induction result using Value.induction with
  | null => exact fun _ => reads_null
  | bool b => exact fun _ => reads_bool b
  | number text => exact fun h => reads_number h.1 h.2
  | string body => exact fun h => reads_string h
  | array items ih =>
      intro h
      rw [wellFormed_array] at h
      have hentries : ∀ e ∈ items.map fun item => (render item, item), Reads e.1 e.2 := by
        intro e he
        obtain ⟨item, hitem, rfl⟩ := List.mem_map.mp he
        exact ih item hitem (h item hitem)
      have hreads := reads_array hentries
      rw [render_array]
      simpa only [List.map_map, Function.comp_def, List.map_id'] using hreads
  | object members ih =>
      intro h
      rw [wellFormed_object] at h
      have hentries : ∀ e ∈ members.map fun member => (member.1, render member.2, member.2),
          (∀ chunk ∈ e.1, chunk.wellFormed = true) ∧ Reads e.2.1 e.2.2 := by
        intro e he
        obtain ⟨member, hmember, rfl⟩ := List.mem_map.mp he
        exact ⟨(h member hmember).1, ih member hmember (h member hmember).2⟩
      have hreads := reads_object hentries
      rw [render_object]
      simpa only [List.map_map, Function.comp_def, Prod.mk.eta, List.map_id'] using hreads

theorem Reads.parse (h : Reads text result) :
    parse text = some result := by
  have hread := h.takes text.length h.depth_le [] (by simp [Ends])
  have hskip := h.begins.skip []
  rw [List.append_nil] at hread hskip
  rw [Json.parse, hskip, hread]
  rfl

theorem parse_render (h : WellFormed result) :
    parse (render result) = some result :=
  (reads_render h).parse

/-- The members of a printed object, with their texts. -/
theorem members_render {entries : List (List Chunk × Value (List Chunk))}
    (h : WellFormed (.object entries)) :
    members (render (.object entries)) =
      some (entries.map fun entry => ⟨entry.1, render entry.2, entry.2⟩) := by
  have hdepth := (reads_render h).depth_le
  rw [wellFormed_object] at h
  rw [Value.depth_object] at hdepth
  generalize hfuel : (render (.object entries)).length = fuel at hdepth
  have hread := @bracketed_members fuel (entries.map fun e => (e.1, render e.2, e.2))
    (List.forall_mem_map.mpr fun e he => ⟨(h e he).1, reads_render (h e he).2⟩)
    (List.forall_mem_map.mpr fun e he => (Value.depth_le_depths
      (List.mem_map_of_mem (f := Prod.snd) he)).trans (Nat.le_of_succ_le hdepth)) []
  have hskip : skip (render (.object entries)) = render (.object entries) := by
    rw [render_object]
    rfl
  rw [members, hskip, hfuel, render_object]
  simp only [List.map_map, Function.comp_def] at hread
  simp only [hread, Option.map_some, if_true]

/-! ## What is read is well formed -/

variable {β : Type} {item : Bytes → Option (β × Bytes)} {close : UInt8} {results : List β}

theorem sequence_sound (h : sequence item close fuel text = some (results, rest)) :
    ∀ result ∈ results, ∃ input final, item input = some (result, final) := by
  induction fuel generalizing text rest results with
  | zero => cases h
  | succ fuel ih =>
      rw [sequence] at h
      split at h
      · cases h
      · rename_i first after hfirst
        split at h
        · cases h
        · split at h
          · obtain ⟨⟨more, final⟩, hmore, heq⟩ := Option.map_eq_some_iff.mp h
            injection heq with hresults
            subst hresults
            exact List.forall_mem_cons.mpr ⟨⟨_, _, hfirst⟩, ih hmore⟩
          · split at h
            · injection h with heq
              injection heq with hresults
              subst hresults
              simpa using ⟨_, _, hfirst⟩
            · cases h

theorem bracketed_sound (h : bracketed item close text = some (results, rest)) :
    ∀ result ∈ results, ∃ input final, item input = some (result, final) := by
  rw [bracketed] at h
  split at h
  · cases h
  · split at h
    · injection h with heq
      injection heq with hresults
      subst hresults
      simp
    · exact sequence_sound h

theorem scalar_wellFormed (h : scalar text = some (result, rest)) : WellFormed result := by
  rw [scalar] at h
  split at h
  · cases h
    trivial
  · split at h
    · cases h
      trivial
    · split at h
      · cases h
        trivial
      · split at h
        · rename_i hnumber
          cases h
          exact ⟨hnumber, List.all_takeWhile⟩
        · cases h

theorem member_sound {item : Bytes → Option (Value (List Chunk) × Bytes)} {result : Member}
    (h : member item text = some (result, rest)) :
    (∀ chunk ∈ result.key, chunk.wellFormed = true) ∧
      ∃ input final, item input = some (result.value, final) := by
  cases text with
  | nil => cases h
  | cons c text =>
      rw [member] at h
      split at h
      · split at h
        · cases h
        · rename_i key after hkey
          split at h
          · cases h
          · split at h
            · obtain ⟨⟨inner, final⟩, hinner, heq⟩ := Option.map_eq_some_iff.mp h
              injection heq with hresult
              subst hresult
              exact ⟨wellFormed_of_scanString hkey, _, _, hinner⟩
            · cases h
      · cases h

/-- **What is read keeps to the grammar.** -/
theorem value_wellFormed (h : value fuel text = some (result, rest)) : WellFormed result := by
  induction fuel generalizing text rest result with
  | zero =>
      unfold value at h
      split at h
      · cases h
      · split at h
        · obtain ⟨⟨body, final⟩, hbody, heq⟩ := Option.map_eq_some_iff.mp h
          cases heq
          exact wellFormed_of_scanString hbody
        · split at h
          · cases h
          · split at h
            · cases h
            · exact scalar_wellFormed h
  | succ fuel ih =>
      unfold value at h
      split at h
      · cases h
      · split at h
        · obtain ⟨⟨body, final⟩, hbody, heq⟩ := Option.map_eq_some_iff.mp h
          cases heq
          exact wellFormed_of_scanString hbody
        · split at h
          · obtain ⟨⟨items, final⟩, hitems, heq⟩ := Option.map_eq_some_iff.mp h
            cases heq
            rw [wellFormed_array]
            intro item hmem
            obtain ⟨input, after, hitem⟩ := bracketed_sound hitems item hmem
            exact ih hitem
          · split at h
            · obtain ⟨⟨found, final⟩, hfound, heq⟩ := Option.map_eq_some_iff.mp h
              cases heq
              rw [wellFormed_object]
              refine List.forall_mem_map.mpr ?_
              intro item hmem
              obtain ⟨input, after, hitem⟩ := bracketed_sound hfound item hmem
              obtain ⟨hkey, inner, final, hinner⟩ := member_sound hitem
              exact ⟨hkey, ih hinner⟩
            · exact scalar_wellFormed h

theorem wellFormed_of_parse (h : parse text = some result) : WellFormed result := by
  rw [parse] at h
  split at h
  · cases h
  · rename_i hread
    split at h
    · cases h
      exact value_wellFormed hread
    · cases h

/-! ## Broken objects -/

/-- An object whose first member has a broken string is no JSON text. -/
theorem parse_of_broken_string {key : List Chunk} (hkey : ∀ chunk ∈ key, chunk.wellFormed = true)
    (hbroken : scanString rest = none) :
    parse (123 :: (quoted key ++ 58 :: 34 :: rest)) = none := by
  have hmember : ∀ fuel, member (value fuel) (quoted key ++ 58 :: 34 :: rest) = none := by
    intro fuel
    have hvalue : value fuel (34 :: rest) = none := by
      rw [value.eq_def]
      simp [hbroken]
    have hcolon : skip (58 :: 34 :: rest) = 58 :: 34 :: rest := rfl
    have hquote : skip (34 :: rest) = 34 :: rest := rfl
    rw [quoted_append, member]
    simp only [if_true, scanString_bodyText hkey, hcolon, hquote, hvalue, Option.map_none]
  have hskip : ∀ text, skip (123 :: text) = 123 :: text := fun _ => rfl
  rw [parse, hskip, List.length_cons, value.eq_def]
  simp only [bracketed_eq_none closes_object (begins_quoted key _) (hmember _), Option.map_none]
  rfl

end Ubiq.Foundation.Json
