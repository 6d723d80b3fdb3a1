import Mathlib.Data.List.Forall2
import Mathlib.Tactic.SplitIfs
import Fieldbus.MacAddress

/-!
# The grammar of hardware addresses

A text is read as an address exactly if cutting it at every colon and every hyphen gives six parts
that each spell an octet. What is written is read back, so that reading and writing a text once
more changes nothing.
-/

namespace Fieldbus

namespace Hex

variable {c : Char} {n : Nat}

/-- A digit stands at the place of its value in one of the two rows of digits. -/
def Denotes (c : Char) (n : Nat) : Prop :=
  "0123456789abcdef".toList[n]? = some c ∨ "0123456789ABCDEF".toList[n]? = some c

instance (c : Char) (n : Nat) : Decidable (Denotes c n) := inferInstanceAs (Decidable (_ ∨ _))

theorem Denotes.lt (h : Denotes c n) : n < 16 := by
  rcases h with lower | upper
  · exact (List.getElem?_eq_some_iff.mp lower).1
  · exact (List.getElem?_eq_some_iff.mp upper).1

theorem Denotes.ascii (h : Denotes c n) : c.toNat < 128 := by
  have rows : ("0123456789abcdef".toList ++ "0123456789ABCDEF".toList).all (·.toNat < 128) := by
    decide
  refine of_decide_eq_true (List.all_eq_true.mp rows c (List.mem_append.mpr ?_))
  exact h.imp List.mem_of_getElem? List.mem_of_getElem?

theorem digit?_bounds (h : digit? c = some n) : c.toNat < 128 ∧ n < 16 := by
  unfold digit? at h
  split_ifs at h with decimal lower upper <;> cases h
  · have high : c.toNat ≤ 57 := decimal.2
    show c.toNat < 128 ∧ c.toNat - 48 < 16
    omega
  · have high : c.toNat ≤ 102 := lower.2
    show c.toNat < 128 ∧ c.toNat - 97 + 10 < 16
    omega
  · have high : c.toNat ≤ 70 := upper.2
    show c.toNat < 128 ∧ c.toNat - 65 + 10 < 16
    omega

theorem digit?_eq_some_iff : digit? c = some n ↔ Denotes c n := by
  have table : ∀ k < 128, ∀ n < 16,
      (digit? (Char.ofNat k) = some n ↔ Denotes (Char.ofNat k) n) := by
    decide +kernel
  have code (ascii : c.toNat < 128) (small : n < 16) : digit? c = some n ↔ Denotes c n := by
    rw [← Char.ofNat_toNat c]
    exact table _ ascii _ small
  constructor
  · intro h
    obtain ⟨ascii, small⟩ := digit?_bounds h
    exact (code ascii small).mp h
  · intro h
    exact (code h.ascii h.lt).mpr h

theorem Denotes.utf8Size (h : Denotes c n) : c.utf8Size = 1 :=
  Char.utf8Size_eq_one_iff.mpr (Nat.le_of_lt_succ h.ascii)

theorem denotes_digits (b : UInt8) : ∃ c d, digits b = [c, d] ∧ Denotes c (b.toNat / 16) ∧
    Denotes d (b.toNat % 16) := by
  have bound := b.toNat_lt
  exact ⟨_, _, rfl, digit?_eq_some_iff.mp (digit?_digitChar _ (by omega)),
    digit?_eq_some_iff.mp (digit?_digitChar _ (by omega))⟩

end Hex

namespace MacAddress

open Hex (Denotes)

variable {part : List Char} {b : UInt8}

inductive Octet : List Char → UInt8 → Prop where
  | digits {c d : Char} {high low : Nat} (first : Denotes c high) (second : Denotes d low) :
      Octet [c, d] (UInt8.ofNat (16 * high + low))
  | signed {d : Char} {low : Nat} (digit : Denotes d low) : Octet ['+', d] (UInt8.ofNat low)

/-! ## One part -/

theorem foldl_utf8Size (n : Nat) (part : List Char) :
    part.foldl (fun n c => n + c.utf8Size) n = n + utf8Length part := by
  induction part generalizing n with
  | nil => rfl
  | cons c rest ih =>
      have whole : utf8Length (c :: rest) = 0 + c.utf8Size + utf8Length rest := ih _
      rw [List.foldl_cons, ih, whole, Nat.zero_add, Nat.add_assoc]

theorem utf8Length_cons (c : Char) (rest : List Char) :
    utf8Length (c :: rest) = c.utf8Size + utf8Length rest := by
  rw [utf8Length, List.foldl_cons, foldl_utf8Size, Nat.zero_add]

theorem utf8Length_pair (c d : Char) : utf8Length [c, d] = c.utf8Size + d.utf8Size := by
  rw [utf8Length_cons, utf8Length_cons]
  rfl

theorem utf8Length_eq_utf8ByteSize (part : List Char) :
    utf8Length part = (String.ofList part).utf8ByteSize := by
  induction part with
  | nil => rfl
  | cons c rest ih =>
      rw [utf8Length_cons, ih, String.ofList_cons, String.utf8ByteSize_append,
        String.utf8ByteSize_singleton]

theorem Octet.utf8Length (h : Octet part b) : utf8Length part = 2 := by
  cases h with
  | digits first second => rw [utf8Length_pair, first.utf8Size, second.utf8Size]
  | signed digit => rw [utf8Length_pair, digit.utf8Size, show '+'.utf8Size = 1 from rfl]

theorem octet?_signed (d : Char) : octet? ['+', d] = (Hex.digit? d).map UInt8.ofNat := by
  cases digit : Hex.digit? d with
  | none => simp [octet?, Hex.number?, digit]
  | some low =>
      have small := (Hex.digit?_bounds digit).2
      simp [octet?, Hex.number?, digit, show low < 256 by omega]

theorem octet?_unsigned {c : Char} (plain : c ≠ '+') (rest : List Char) :
    octet? (c :: rest) = (Hex.number? 0 (c :: rest)).bind fun n =>
      if n < 256 then some (UInt8.ofNat n) else none := by
  unfold octet?
  split
  · rename_i same
    cases same
    exact absurd rfl plain
  · cases number : Hex.number? 0 (c :: rest) <;> simp [number]

theorem octet?_digits {c : Char} (plain : c ≠ '+') (d : Char) : octet? [c, d] =
    (Hex.digit? c).bind fun high => (Hex.digit? d).map fun low =>
      UInt8.ofNat (16 * high + low) := by
  rw [octet?_unsigned plain]
  cases first : Hex.digit? c with
  | none => simp [Hex.number?, first]
  | some high =>
      cases second : Hex.digit? d with
      | none => simp [Hex.number?, first, second]
      | some low =>
          have := (Hex.digit?_bounds first).2
          have := (Hex.digit?_bounds second).2
          simp [Hex.number?, first, second, show 16 * high + low < 256 by omega]

theorem Octet.octet? (h : Octet part b) : octet? part = some b := by
  cases h with
  | @digits c d high low first second =>
      have plain : c ≠ '+' := by
        rintro rfl
        cases Hex.digit?_eq_some_iff.mpr first
      rw [octet?_digits plain, Hex.digit?_eq_some_iff.mpr first,
        Hex.digit?_eq_some_iff.mpr second]
      rfl
  | signed digit =>
      rw [octet?_signed, Hex.digit?_eq_some_iff.mpr digit]
      rfl

theorem octet_of_octet? {c d : Char} (h : MacAddress.octet? [c, d] = some b) : Octet [c, d] b := by
  by_cases sign : c = '+'
  · subst sign
    rw [octet?_signed, Option.map_eq_some_iff] at h
    obtain ⟨low, digit, rfl⟩ := h
    exact .signed (Hex.digit?_eq_some_iff.mp digit)
  · rw [octet?_digits sign, Option.bind_eq_some_iff] at h
    obtain ⟨high, first, h⟩ := h
    obtain ⟨low, second, rfl⟩ := Option.map_eq_some_iff.mp h
    exact .digits (Hex.digit?_eq_some_iff.mp first) (Hex.digit?_eq_some_iff.mp second)

theorem octet?_wide {c : Char} (wide : c.utf8Size ≠ 1) : octet? [c] = none := by
  have plain : c ≠ '+' := by
    rintro rfl
    exact wide rfl
  have unknown : Hex.digit? c = none := by
    cases digit : Hex.digit? c with
    | none => rfl
    | some n => exact absurd (Hex.digit?_eq_some_iff.mp digit).utf8Size wide
  simp [octet?_unsigned plain, Hex.number?, unknown]

theorem part?_eq_some_iff : part? part = some b ↔ Octet part b := by
  unfold part?
  constructor
  · intro h
    split_ifs at h with size
    rcases part with - | ⟨c, - | ⟨d, - | ⟨e, rest⟩⟩⟩
    · cases size
    · have wide : c.utf8Size = 2 := (utf8Length_cons c []).symm.trans size
      rw [octet?_wide (by omega)] at h
      cases h
    · exact octet_of_octet? h
    · have := c.utf8Size_pos
      have := d.utf8Size_pos
      have := e.utf8Size_pos
      simp only [utf8Length_cons] at size
      omega
  · intro h
    rw [if_pos h.utf8Length, h.octet?]

/-! ## All the parts -/

theorem parts_eq_splitOnP (chars : List Char) :
    parts chars = chars.splitOnP fun c => c == ':' || c == '-' := by
  induction chars with
  | nil => rfl
  | cons c rest ih =>
      rw [parts, ih, List.splitOnP_cons_eq_if_modifyHead, isSeparator]
      split_ifs with cut
      · rfl
      · cases pieces : rest.splitOnP _ with
        | nil => exact absurd pieces (List.splitOnP_ne_nil _ _)
        | cons piece others => rfl

theorem mapM_part?_eq_some_iff {pieces : List (List Char)} {bs : Bytes} :
    pieces.mapM part? = some bs ↔ List.Forall₂ Octet pieces bs := by
  induction pieces generalizing bs with
  | nil => simp [eq_comm]
  | cons piece pieces ih =>
      rw [List.mapM_cons]
      constructor
      · intro h
        simp only [Option.bind_eq_bind, Option.bind_eq_some_iff] at h
        obtain ⟨b, first, bs', others, whole⟩ := h
        cases whole
        exact .cons (part?_eq_some_iff.mp first) (ih.mp others)
      · rintro (_ | ⟨first, others⟩)
        rw [part?_eq_some_iff.mpr first, ih.mpr others]
        rfl

theorem ofBytes?_eq_some_iff {bs : Bytes} {m : MacAddress} :
    ofBytes? bs = some m ↔ bs = m.bytes := by
  constructor
  · intro h
    unfold ofBytes? at h
    split at h <;> cases h
    rfl
  · rintro rfl
    exact ofBytes?_bytes m

theorem parse?_eq_some_iff {text : String} {m : MacAddress} :
    parse? text = some m ↔ List.Forall₂ Octet (parts text.toList) m.bytes := by
  rw [parse?, Option.bind_eq_some_iff]
  simp only [mapM_part?_eq_some_iff, ofBytes?_eq_some_iff, exists_eq_right]

theorem read_eq_ok_iff {text : String} {m : MacAddress} :
    read text = .ok m ↔ List.Forall₂ Octet (parts text.toList) m.bytes := by
  rw [← parse?_eq_some_iff, read]
  cases parse? text <;> simp

theorem toList_text (m : MacAddress) :
    m.text.toList = [':'].intercalate (m.bytes.map Hex.digits) := by
  rw [text, String.toList_intercalate, List.map_map]
  congr 2
  funext b
  exact String.toList_ofList

theorem octet_digits (b : UInt8) : Octet (Hex.digits b) b := by
  obtain ⟨c, d, digits, first, second⟩ := Hex.denotes_digits b
  have whole : 16 * (b.toNat / 16) + b.toNat % 16 = b.toNat := Nat.div_add_mod _ _
  have octet := Octet.digits first second
  rwa [whole, UInt8.ofNat_toNat, ← digits] at octet

theorem separator_free (b : UInt8) : ∀ c ∈ Hex.digits b, isSeparator c = false := by
  have digits : ∀ n < 16, isSeparator (Nat.digitChar n) = false := by decide
  have bound := b.toNat_lt
  intro c hc
  rw [Hex.digits, List.mem_pair] at hc
  rcases hc with rfl | rfl
  · exact digits _ (by omega)
  · exact digits _ (by omega)

theorem parts_intercalate {pieces : List (List Char)} (some : pieces ≠ [])
    (free : ∀ piece ∈ pieces, ∀ c ∈ piece, isSeparator c = false) :
    parts ([':'].intercalate pieces) = pieces := by
  simp only [isSeparator] at free
  rw [parts_eq_splitOnP]
  induction pieces with
  | nil => exact absurd rfl some
  | cons piece pieces ih =>
      have first := free piece List.mem_cons_self
      cases pieces with
      | nil => rw [List.intercalate_singleton, List.splitOnP_eq_singleton first]
      | cons next others =>
          rw [List.intercalate_cons_cons, List.append_assoc, List.singleton_append,
            List.splitOnP_append_cons_of_forall_mem first ':' rfl,
            ih (List.cons_ne_nil _ _) fun p hp => free p (List.mem_cons_of_mem _ hp)]

theorem read_text (m : MacAddress) : read m.text = .ok m := by
  have some : m.bytes.map Hex.digits ≠ [] := by
    rw [Ne, List.map_eq_nil_iff, ← List.length_eq_zero_iff, length_bytes]
    decide
  rw [read_eq_ok_iff, toList_text, parts_intercalate some, List.forall₂_map_left_iff,
    List.forall₂_same]
  · exact fun b _ => octet_digits b
  · intro piece hp
    obtain ⟨b, -, rfl⟩ := List.mem_map.mp hp
    exact separator_free b

/-! ## Exactly the grammar -/

theorem exists_bytes {bs : Bytes} (six : bs.length = 6) : ∃ m : MacAddress, m.bytes = bs := by
  match bs, six with
  | [a, b, c, d, e, f], _ => exact ⟨ofOctets a b c d e f, rfl⟩

theorem exists_octets_iff {pieces : List (List Char)} :
    (∃ bs, List.Forall₂ Octet pieces bs) ↔ ∀ piece ∈ pieces, ∃ b, Octet piece b := by
  induction pieces with
  | nil => exact iff_of_true ⟨[], .nil⟩ nofun
  | cons piece pieces ih =>
      rw [List.forall_mem_cons, ← ih]
      constructor
      · rintro ⟨_, - | ⟨first, others⟩⟩
        exact ⟨⟨_, first⟩, _, others⟩
      · rintro ⟨⟨b, first⟩, bs, others⟩
        exact ⟨b :: bs, .cons first others⟩

def normalize (text : String) : Except Unreadable String := (read text).map MacAddress.text

/-- A text is read if its pieces are six and each spells an octet, and the address has these octets
in order. Otherwise the refusal carries the text. Whatever was written is read back. -/
theorem reads_exactly (text : String) :
    let pieces := text.toList.splitOnP fun c => c == ':' || c == '-'
    (∀ m, read text = .ok m ↔ List.Forall₂ Octet pieces m.bytes) ∧
      ((∃ m, read text = .ok m) ↔ pieces.length = 6 ∧ ∀ piece ∈ pieces,
        (String.ofList piece).utf8ByteSize = 2 ∧ ∃ b, Octet piece b) ∧
      ((∃ m, read text = .ok m) ∨ read text = .error ⟨text⟩) ∧
      (∀ m : MacAddress, read m.text = .ok m) ∧
      (normalize text).bind normalize = normalize text := by
  intro pieces
  have ok (m : MacAddress) : read text = .ok m ↔ List.Forall₂ Octet pieces m.bytes := by
    rw [read_eq_ok_iff, parts_eq_splitOnP]
  refine ⟨ok, ⟨?_, ?_⟩, ?_, read_text, ?_⟩
  · rintro ⟨m, h⟩
    have spelled := (ok m).mp h
    refine ⟨spelled.length_eq.trans m.length_bytes, fun piece hp => ?_⟩
    obtain ⟨b, octet⟩ := exists_octets_iff.mp ⟨_, spelled⟩ piece hp
    exact ⟨(utf8Length_eq_utf8ByteSize piece).symm.trans octet.utf8Length, b, octet⟩
  · rintro ⟨six, spelled⟩
    obtain ⟨bs, octets⟩ := exists_octets_iff.mpr fun piece hp => (spelled piece hp).2
    obtain ⟨m, rfl⟩ := exists_bytes (octets.length_eq.symm.trans six)
    exact ⟨m, (ok m).mpr octets⟩
  · rw [read]
    cases parse? text with
    | none => exact .inr rfl
    | some m => exact .inl ⟨m, rfl⟩
  · unfold normalize
    cases read text with
    | error e => rfl
    | ok m =>
        show (read m.text).map MacAddress.text = .ok m.text
        rw [read_text]
        rfl

theorem reads_exactly_mixed :
    let text := "+f-0a:B0:c4-00:+9"
    List.Forall₂ Octet (text.toList.splitOnP fun c => c == ':' || c == '-')
        (ofOctets 15 10 176 196 0 9).bytes ∧
      read text = .ok (ofOctets 15 10 176 196 0 9) := by
  intro text
  have cut : text.toList.splitOnP (fun c => c == ':' || c == '-') =
      [['+', 'f'], ['0', 'a'], ['B', '0'], ['c', '4'], ['0', '0'], ['+', '9']] := by
    decide
  have spelled : List.Forall₂ Octet (text.toList.splitOnP fun c => c == ':' || c == '-')
      (ofOctets 15 10 176 196 0 9).bytes := by
    rw [cut]
    exact .cons (@Octet.signed 'f' 15 (by decide)) <|
      .cons (@Octet.digits '0' 'a' 0 10 (by decide) (by decide)) <|
      .cons (@Octet.digits 'B' '0' 11 0 (by decide) (by decide)) <|
      .cons (@Octet.digits 'c' '4' 12 4 (by decide) (by decide)) <|
      .cons (@Octet.digits '0' '0' 0 0 (by decide) (by decide)) <|
      .cons (@Octet.signed '9' 9 (by decide)) .nil
  exact ⟨spelled, ((reads_exactly text).1 _).mpr spelled⟩

end MacAddress

end Fieldbus
