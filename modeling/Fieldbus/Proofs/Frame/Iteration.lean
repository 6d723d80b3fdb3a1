import Mathlib.Logic.Function.Iterate
import Fieldbus.Proofs.Frame.Masking

/-!
# Reading a region step by step

The lengths and the more flags that lead from one datagram to the next are bytes of the region. For
any bytes the chain comes to an end, each datagram lies where the one before it ends, and what is
read does not depend on how far the chain has been read before.
-/

namespace Fieldbus

/-! ## What lies at a place -/

theorem Command.toByte_of_ofByte? {byte : UInt8} {command : Command}
    (h : ofByte? byte = .ok command) : byte = command.toByte := by
  unfold ofByte? at h
  split at h <;> first | (cases h; done) | (cases h; rfl)

namespace DatagramHeader

theorem exists_decode? {bytes : Bytes} :
    (∃ header, decode? bytes = .ok header) ↔
      Layout.datagramHeader ≤ bytes.length ∧
        ∃ command : Command, bytes[0]? = some command.toByte := by
  constructor
  · rintro ⟨header, decode⟩
    refine ⟨(decode?_take decode).1, ?_⟩
    unfold decode? at decode
    split at decode
    · rename_i byte _ _ _ _ _ _ _ _ _ _
      cases known : Command.ofByte? byte with
      | error cause => simp [known, bind, Except.bind] at decode
      | ok command => exact ⟨command, by rw [← Command.toByte_of_ofByte? known]; rfl⟩
    · cases decode
  · rintro ⟨ten, command, first⟩
    rcases bytes with - | ⟨_, - | ⟨_, - | ⟨_, - | ⟨_, - | ⟨_, - | ⟨_, - | ⟨_, - | ⟨_, - | ⟨_, - |
      ⟨_, rest⟩⟩⟩⟩⟩⟩⟩⟩⟩⟩ <;>
      simp only [List.length_cons, List.length_nil, Layout.datagramHeader] at ten <;> try omega
    simp only [List.getElem?_cons_zero, Option.some.injEq] at first
    simp only [decode?, first, Command.ofByte?_toByte]
    exact ⟨_, rfl⟩

theorem length_of_decode? {bytes : Bytes} {header : DatagramHeader}
    (h : decode? bytes = .ok header) : header.length.toNat =
      (Bytes.decodeWord (bytes.getD 6 0) (bytes.getD 7 0)).toNat % 2048 := by
  unfold decode? at h
  split at h
  · rename_i byte _ _ _ _ _ _ _ _ _ _
    cases known : Command.ofByte? byte with
    | error cause => simp [known, bind, Except.bind] at h
    | ok command =>
        simp only [known, bind, Except.bind, pure, Except.pure, Except.ok.injEq] at h
        subst h
        simp only [UInt16.toNat_ofNat', List.getD_cons_succ, List.getD_cons_zero]
        omega
  · cases h

end DatagramHeader

namespace Datagram

def announced (region : Bytes) (offset : Nat) : Nat :=
  (Bytes.decodeWord (region.getD (offset + 6) 0) (region.getD (offset + 7) 0)).toNat % 2048

/-- A datagram with a known command begins here, and the region has all of it. -/
def Whole (region : Bytes) (offset : Nat) : Prop :=
  (∃ command : Command, region[offset]? = some command.toByte) ∧
    offset + (12 + announced region offset) ≤ region.length

/-- The datagram is within the region, and its header, payload and work counter are the bytes that
the region has there. -/
def Lies (region : Bytes) (d : Datagram) : Prop :=
  d.stop ≤ region.length ∧ d.Spelled ((region.drop d.offset).take d.header.datagramLength)

variable {region : Bytes} {offset : Nat} {d : Datagram}

theorem parse?_drop (inside : offset ≤ region.length) :
    parse? region offset =
      (parse? (region.drop offset) 0).map fun d => { d with offset } := by
  simp only [parse?, if_neg (Nat.not_lt.mpr inside), if_neg (Nat.not_lt_zero _), List.drop_zero]
  cases DatagramHeader.decode? (region.drop offset) with
  | error cause => rfl
  | ok header =>
      simp only [bind, Except.bind]
      split
      · rfl
      · split <;> rfl

theorem parse?_front (h : parse? region offset = .ok d) : offset ≤ region.length ∧
    ∃ d₀, parse? (region.drop offset) 0 = .ok d₀ ∧ d = { d₀ with offset } := by
  have inside : offset ≤ region.length := by
    unfold parse? at h
    split at h
    · cases h
    · rename_i inside
      exact Nat.not_lt.mp inside
  rw [parse?_drop inside] at h
  cases front : parse? (region.drop offset) 0 with
  | error cause => simp [front, Except.map] at h
  | ok d₀ =>
      simp only [front, Except.map, Except.ok.injEq] at h
      exact ⟨inside, d₀, rfl, h.symm⟩

theorem parse?_eq_ok_iff : parse? region offset = .ok d ↔ d.offset = offset ∧ Lies region d := by
  constructor
  · intro parsed
    have stop := Chain.stop_le_of_parse? parsed
    obtain ⟨-, d₀, front, rfl⟩ := parse?_front parsed
    exact ⟨rfl, stop, (spelled_of_parse? front).2.2⟩
  · rintro ⟨rfl, stop, spelled⟩
    have place : d.offset = (region.take d.offset).length := by
      rw [List.length_take_of_le]
      rw [Datagram.stop] at stop
      omega
    have parsed := parse?_spelled spelled (region.take d.offset)
      ((region.drop d.offset).drop d.header.datagramLength) place
    rwa [List.append_assoc, List.take_append_drop, List.take_append_drop, ← place] at parsed

theorem exists_parse?_iff : (∃ d, parse? region offset = .ok d) ↔ Whole region offset := by
  have first : (region.drop offset)[0]? = region[offset]? := by
    rw [List.getElem?_drop, Nat.add_zero]
  have word (i : Nat) : (region.drop offset).getD i 0 = region.getD (offset + i) 0 := by
    rw [List.getD_eq_getElem?_getD, List.getElem?_drop, ← List.getD_eq_getElem?_getD]
  constructor
  · rintro ⟨d, parsed⟩
    have stop := Chain.stop_le_of_parse? parsed
    obtain ⟨-, d₀, front, rfl⟩ := parse?_front parsed
    have decode := (spelled_of_parse? front).1
    obtain ⟨-, command, known⟩ := DatagramHeader.exists_decode?.mp ⟨_, decode⟩
    have length := DatagramHeader.length_of_decode? decode
    rw [word, word, ← announced] at length
    refine ⟨⟨command, first ▸ known⟩, ?_⟩
    simp only [Datagram.stop, DatagramHeader.datagramLength, Layout.datagramHeader,
      Layout.workCounter] at stop
    omega
  · rintro ⟨⟨command, known⟩, whole⟩
    have inside : offset ≤ region.length := by omega
    have ten : Layout.datagramHeader ≤ (region.drop offset).length := by
      rw [List.length_drop, Layout.datagramHeader]
      omega
    obtain ⟨header, decode⟩ :=
      DatagramHeader.exists_decode?.mpr ⟨ten, command, first.trans known⟩
    have length := DatagramHeader.length_of_decode? decode
    rw [word, word, ← announced] at length
    have room : header.datagramLength ≤ (region.drop offset).length := by
      simp only [DatagramHeader.datagramLength, Layout.datagramHeader, Layout.workCounter,
        List.length_drop]
      omega
    obtain ⟨d, parsed⟩ := exists_parse? decode room
    exact ⟨_, by rw [parse?_drop inside, parsed]; rfl⟩

theorem twelve_le_stop (d : Datagram) : d.offset + 12 ≤ d.stop := by
  simp only [stop, DatagramHeader.datagramLength, Layout.datagramHeader, Layout.workCounter]
  omega

end Datagram

/-! ## The steps of a chain -/

namespace Chain

open Datagram (Lies Whole)

variable {c rest : Chain} {region : Bytes} {item : Except Error Datagram}

def following (d : Datagram) : Option Nat := if d.header.more then some d.stop else none

def advance (c : Chain) : Chain :=
  match c.step? with
  | none => c
  | some (_, rest) => rest

theorem step?_cases (c : Chain) : (c.next = none ∧ c.step? = none) ∨
    ∃ offset, c.next = some offset ∧
      ((∃ cause, Datagram.parse? c.region offset = .error cause ∧
          c.step? = some (.error cause, ⟨c.region, none⟩)) ∨
        ∃ d, Datagram.parse? c.region offset = .ok d ∧
          c.step? = some (.ok d, ⟨c.region, following d⟩)) := by
  unfold step?
  rcases place : c.next with - | offset
  · exact .inl ⟨rfl, rfl⟩
  · refine .inr ⟨offset, rfl, ?_⟩
    rcases parsed : Datagram.parse? c.region offset with cause | d
    · exact .inl ⟨cause, rfl, by simp only [parsed]⟩
    · exact .inr ⟨d, rfl, by simp only [parsed, following]⟩

theorem step?_region (step : c.step? = some (item, rest)) : rest.region = c.region := by
  rcases step?_cases c with ⟨-, stopped⟩ | ⟨_, -, ⟨_, -, failed⟩ | ⟨_, -, read⟩⟩
  · rw [stopped] at step
    cases step
  · rw [failed] at step
    cases step
    rfl
  · rw [read] at step
    cases step
    rfl

theorem advance_region (c : Chain) : c.advance.region = c.region := by
  unfold advance
  split
  · rfl
  · rename_i step
    exact step?_region step

theorem iterate_region (c : Chain) (k : Nat) : (advance^[k] c).region = c.region := by
  induction k generalizing c with
  | zero => rfl
  | succ k ih => rw [Function.iterate_succ_apply, ih, advance_region]

/-- How many bytes are left to read, and one more for a failure. -/
def budget (c : Chain) : Nat :=
  match c.next with
  | none => 0
  | some offset => c.region.length - offset + 1

theorem budget_le (c : Chain) : c.budget ≤ c.region.length + 1 := by
  unfold budget
  split <;> omega

theorem budget_lt (step : c.step? = some (item, rest)) : rest.budget < c.budget := by
  rcases step?_cases c with ⟨-, stopped⟩ | ⟨offset, place, ⟨_, -, failed⟩ | ⟨d, parsed, read⟩⟩
  · rw [stopped] at step
    cases step
  · rw [failed] at step
    cases step
    simp [budget, place]
  · rw [read] at step
    cases step
    have stop := stop_le_of_parse? parsed
    have wide := d.twelve_le_stop
    rw [(Datagram.parse?_eq_ok_iff.mp parsed).1] at wide
    simp only [budget, place, following]
    split <;> rename_i goes <;> split at goes <;> cases goes <;> omega

theorem take_of_budget {fuel fuel' : Nat} (enough : c.budget ≤ fuel) (enough' : c.budget ≤ fuel') :
    take fuel c = take fuel' c := by
  induction fuel generalizing c fuel' with
  | zero =>
      rcases step : c.step? with - | ⟨item, rest⟩
      · cases fuel' <;> simp [take, step]
      · have less := budget_lt step
        omega
  | succ fuel ih =>
      rcases step : c.step? with - | ⟨item, rest⟩
      · cases fuel' <;> simp [take, step]
      · have less := budget_lt step
        cases fuel' with
        | zero => omega
        | succ fuel' => simp only [take, step, ih (by omega) (show rest.budget ≤ fuel' by omega)]

theorem toList_none (step : c.step? = none) : c.toList = [] := by
  simp only [toList, take, step]

theorem toList_cons (step : c.step? = some (item, rest)) : c.toList = item :: rest.toList := by
  have less := budget_lt step
  have bound := budget_le c
  have same := step?_region step
  have left : take c.region.length rest = rest.toList := by
    apply take_of_budget (by omega)
    rw [same]
    omega
  rw [toList, take, step]
  simp only [left]

theorem take_eq (fuel : Nat) (c : Chain) : take fuel c = c.toList.take fuel := by
  induction fuel generalizing c with
  | zero => rfl
  | succ fuel ih =>
      rcases step : c.step? with - | ⟨item, rest⟩
      · rw [toList_none step, take, step]
        rfl
      · rw [toList_cons step, take, step]
        simp only [ih, List.take_succ_cons]

theorem advance_toList (c : Chain) :
    c.step?.map Prod.fst = c.toList.head? ∧ c.advance.toList = c.toList.tail := by
  unfold advance
  rcases step : c.step? with - | ⟨item, rest⟩
  · simp [toList_none step]
  · simp [toList_cons step]

theorem iterate_toList (c : Chain) (k : Nat) :
    (advance^[k] c).toList = c.toList.drop k ∧
      (advance^[k] c).step?.map Prod.fst = c.toList[k]? := by
  have left : (advance^[k] c).toList = c.toList.drop k := by
    induction k generalizing c with
    | zero => rfl
    | succ k ih => rw [Function.iterate_succ_apply, ih, (advance_toList c).2, List.drop_tail]
  refine ⟨left, ?_⟩
  rw [(advance_toList _).1, left, List.head?_drop]

theorem follow_eq (c : Chain) (fuel : Nat) :
    follow c.region fuel (c.step?.map Prod.fst) = take fuel c := by
  induction fuel generalizing c with
  | zero => rfl
  | succ fuel ih =>
      rcases step?_cases c with ⟨-, stopped⟩ | ⟨offset, place, ⟨_, -, failed⟩ | ⟨d, -, read⟩⟩
      · simp only [stopped, take, Option.map_none, follow]
      · simp only [failed, take, Option.map_some, follow]
        cases fuel <;> rfl
      · have next : after? c.region d =
            (step? ⟨c.region, following d⟩).map Prod.fst := by
          unfold after? following step?
          split
          · dsimp only
            split <;> rename_i parsed <;> rw [parsed] <;> rfl
          · rfl
        simp only [read, take, Option.map_some, follow, next, ih ⟨c.region, following d⟩]

theorem first?_eq (region : Bytes) :
    first? region = (ofRegion region).step?.map Prod.fst := by
  unfold first? ofRegion start step?
  split
  · rfl
  · dsimp only
    split <;> rename_i parsed <;> rw [parsed] <;> rfl

/-! ## What a chain reads -/

/-- Each datagram lies where the chain points to after the one before it. -/
def Strung (region : Bytes) : Option Nat → List Datagram → Prop
  | _, [] => True
  | next, d :: ds => next = some d.offset ∧ Lies region d ∧ Strung region (following d) ds

/-- Where a chain points to after these datagrams. -/
def pointed : Option Nat → List Datagram → Option Nat
  | next, [] => next
  | _, d :: ds => pointed (following d) ds

theorem Strung.eq_nil {ds : List Datagram} (h : Strung region none ds) : ds = [] := by
  cases ds with
  | nil => rfl
  | cons d ds => cases h.1

theorem Strung.twelve_le {offset : Nat} {ds : List Datagram} (h : Strung region (some offset) ds)
    (inside : offset ≤ region.length) : offset + 12 * ds.length ≤ region.length := by
  induction ds generalizing offset with
  | nil => exact inside
  | cons d ds ih =>
      obtain ⟨here, ⟨stop, -⟩, rest⟩ := h
      cases here
      have wide := d.twelve_le_stop
      unfold following at rest
      split at rest
      · have bound := ih rest stop
        rw [List.length_cons]
        omega
      · rw [rest.eq_nil, List.length_singleton]
        omega

theorem pointed_eq_none {next : Option Nat} {ds : List Datagram} :
    pointed next ds = none ↔
      (next = none ∧ ds = []) ∨ ∃ d, ds.getLast? = some d ∧ d.header.more = false := by
  induction ds generalizing next with
  | nil => simp [pointed]
  | cons d ds ih =>
      rw [pointed, ih]
      cases ds with
      | nil => simp [following]
      | cons d' ds => simp [List.getLast?_cons_cons]

/-- From any place on, datagrams are read up to one without the more flag, or up to a place where
none can be read. -/
theorem toList_shape (c : Chain) : ∃ (ds : List Datagram) (failure : Option Error),
    c.toList = ds.map .ok ++ (failure.map .error).toList ∧ Strung c.region c.next ds ∧
      (failure = none ∧ pointed c.next ds = none ∨
        ∃ cause offset, failure = some cause ∧ pointed c.next ds = some offset ∧
          Datagram.parse? c.region offset = .error cause) := by
  induction size : c.budget using Nat.strongRecOn generalizing c with
  | _ n ih =>
      rcases step?_cases c with ⟨place, stopped⟩ | ⟨offset, place, ⟨cause, unread, failed⟩ |
        ⟨d, parsed, read⟩⟩
      · exact ⟨[], none, by rw [toList_none stopped]; rfl, trivial, .inl ⟨rfl, place⟩⟩
      · refine ⟨[], some cause, ?_, trivial, .inr ⟨cause, offset, rfl, place, unread⟩⟩
        rw [toList_cons failed, toList_none rfl]
        rfl
      · obtain ⟨ds, failure, items, strung, last⟩ :=
          ih _ (size ▸ budget_lt read) ⟨c.region, following d⟩ rfl
        obtain ⟨rfl, lies⟩ := Datagram.parse?_eq_ok_iff.mp parsed
        refine ⟨d :: ds, failure, ?_, ⟨place, lies, strung⟩, last⟩
        rw [toList_cons read, items]
        rfl

theorem start_eq_none : start region = none ↔ region = [] := by
  cases region <;> simp [start]

theorem restart_iterate (region : Bytes) (k : Nat) :
    (advance^[k] (ofRegion region)).restart = ofRegion region := by
  rw [restart, iterate_region]
  rfl

/-- The chain of any bytes comes to an end. Its datagrams lie one after the other in the region. A
failure stands at the end only, exactly where no datagram can be read. Finding the datagrams from
one another gives the same items, a chain that was taken after some of them has the others left,
and from the start all are read again. -/
theorem iterates (region : Bytes) : ∃ (ds : List Datagram) (failure : Option Error),
    (ofRegion region).toList = ds.map .ok ++ (failure.map .error).toList ∧
      Strung region (start region) ds ∧ ds.length ≤ region.length / 12 ∧
      (failure.isSome ↔
        ∃ offset, pointed (start region) ds = some offset ∧ ¬Whole region offset) ∧
      (failure = none ↔ region = [] ∨ ∃ d, ds.getLast? = some d ∧ d.header.more = false) ∧
      links region = (ofRegion region).toList ∧
      (∀ fuel, follow region fuel (first? region) = (ofRegion region).toList.take fuel) ∧
      ∀ k, (advance^[k] (ofRegion region)).step?.map Prod.fst = (ofRegion region).toList[k]? ∧
        (advance^[k] (ofRegion region)).toList = (ofRegion region).toList.drop k ∧
        (advance^[k] (ofRegion region)).restart.toList = (ofRegion region).toList := by
  obtain ⟨ds, failure, items, strung, last⟩ := toList_shape (ofRegion region)
  have none_iff : failure = none ↔ pointed (start region) ds = none := by
    rcases last with ⟨rfl, ended⟩ | ⟨cause, offset, rfl, place, -⟩
    · exact iff_of_true rfl ended
    · exact iff_of_false nofun (fun ended => by cases place.symm.trans ended)
  have some_iff : failure.isSome ↔
      ∃ offset, pointed (start region) ds = some offset ∧ ¬Whole region offset := by
    rcases last with ⟨rfl, ended⟩ | ⟨cause, offset, rfl, place, unread⟩
    · refine iff_of_false nofun ?_
      rintro ⟨offset, place, -⟩
      cases ended.symm.trans place
    · refine iff_of_true rfl ⟨offset, place, fun whole => ?_⟩
      obtain ⟨d, parsed⟩ := Datagram.exists_parse?_iff.mpr whole
      cases unread.symm.trans parsed
  have reach (fuel : Nat) :
      follow region fuel (first? region) = (ofRegion region).toList.take fuel := by
    rw [first?_eq, ← take_eq]
    exact follow_eq (ofRegion region) fuel
  refine ⟨ds, failure, items, strung, ?_, some_iff, ?_, ?_, reach, fun k => ?_⟩
  · rcases region with - | ⟨byte, others⟩
    · rw [Strung.eq_nil strung]
      exact Nat.zero_le _
    · have bound := Strung.twelve_le strung (Nat.zero_le _)
      simp only [ofRegion] at bound
      omega
  · rw [none_iff, pointed_eq_none, start_eq_none]
    refine or_congr_left ⟨And.left, fun empty => ⟨empty, ?_⟩⟩
    rw [empty] at strung
    exact strung.eq_nil
  · rw [links, reach, ← take_eq]
    rfl
  · obtain ⟨left, item⟩ := iterate_toList (ofRegion region) k
    exact ⟨item, left, by rw [restart_iterate]⟩

end Chain

end Fieldbus
