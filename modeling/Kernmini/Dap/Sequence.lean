/-
Kernmini.Dap.Sequence — the sequence numbers of a `DapClient`.

`request_sequence` takes the number a request brings, or allocates one, and
moves the counter past it. The check that the number has a successor comes
after the `fetch_add` of an allocation. So there is one value of the counter
at which an allocation goes wrong, `u64::MAX`: the call is rejected, and the
counter has wrapped to 0.

First calls one after another, then calls of any number of threads.
-/
import Kernmini.Dap.ClientSteps
import Kernmini.Lib.Observe

namespace Kernmini.Dap

open Kernmini.Wire Kernmini.Engine Kernmini.Lib

/-! ## One call -/

/-- The number `next_sequence` gives a request that brings none. -/
def allocates (nextSeq : UInt64) (request : Value) : Option UInt64 :=
  match request with
  | .object content =>
      match ((Map.get content "seq").bind Value.asU64).filter (fun seq => 0 < seq) with
      | some _ => none
      | none => some nextSeq
  | _ => none

/-- `request_sequence` with no other call in between, and the counter after
it. -/
def reserve (nextSeq : UInt64) (request : Value) : Except Error UInt64 × UInt64 :=
  match requestSequence nextSeq request with
  | (.error error, next) => (.error error, next)
  | (.ok (seq, _), next) =>
      match checkedSucc seq with
      | none => (.error sequenceTooLarge, next)
      | some succ => (.ok seq, max next succ)

/-- The numbers a call allocates and accepts. -/
def numbersOf (nextSeq : UInt64) (request : Value) : List UInt64 :=
  (allocates nextSeq request).toList ++
    (match (reserve nextSeq request).1 with
      | .ok seq => [seq]
      | .error _ => [])

/-- The counter is positive and above the numbers. -/
def Ahead (nextSeq : UInt64) (numbers : List UInt64) : Prop :=
  0 < nextSeq ∧ ∀ seq ∈ numbers, seq < nextSeq

def lastNumber : UInt64 := 18446744073709551615

theorem checkedSucc_eq_none {seq : UInt64} : checkedSucc seq = none ↔ seq = lastNumber := by
  unfold checkedSucc lastNumber
  rw [UInt64.ext_iff]
  have := seq.toNat_lt
  split
  · simp
    omega
  · simp
    omega

theorem checkedSucc_eq_some {seq succ : UInt64} (h : checkedSucc seq = some succ) :
    succ = seq + 1 ∧ seq < seq + 1 := by
  unfold checkedSucc at h
  split at h
  · next hlt =>
      cases h
      refine ⟨rfl, ?_⟩
      rw [UInt64.lt_iff_toNat_lt, UInt64.toNat_add]
      simp
      omega
  · cases h

theorem lt_max_left {a b : UInt64} (h : a < b) (c : UInt64) : a < max b c := by
  show a < if b ≤ c then c else b
  split
  · next hle => exact UInt64.lt_of_lt_of_le h hle
  · exact h

theorem lt_max_right {a c : UInt64} (h : a < c) (b : UInt64) : a < max b c := by
  show a < if b ≤ c then c else b
  split
  · exact h
  · next hle => exact UInt64.lt_trans h (UInt64.not_le.mp hle)

theorem max_same (a : UInt64) : max a a = a := by
  show (if a ≤ a then a else a) = a
  exact ite_self _

/-- How a call of `request_sequence` goes: what it allocates, what it returns
and the counter after it. -/
inductive ReserveRule (nextSeq : UInt64) : Option UInt64 → Except Error UInt64 × UInt64 → Prop
  | notObject : ReserveRule nextSeq none
      (.error ⟨.invalidInput, "DAP request must be an object"⟩, nextSeq)
  | own {seq : UInt64} (hlt : seq < seq + 1) :
      ReserveRule nextSeq none (.ok seq, max nextSeq (seq + 1))
  | ownTooLarge : ReserveRule nextSeq none (.error sequenceTooLarge, nextSeq)
  | allocated (hroom : nextSeq ≠ lastNumber) (hlt : nextSeq < nextSeq + 1) :
      ReserveRule nextSeq (some nextSeq) (.ok nextSeq, nextSeq + 1)
  | wrapped (hlast : nextSeq = lastNumber) :
      ReserveRule nextSeq (some nextSeq) (.error sequenceTooLarge, 0)

theorem reserve_rule (nextSeq : UInt64) (request : Value) :
    ReserveRule nextSeq (allocates nextSeq request) (reserve nextSeq request) := by
  cases request with
  | object content =>
      simp only [allocates, reserve, requestSequence]
      cases hown : ((Map.get content "seq").bind Value.asU64).filter (fun seq => 0 < seq) with
      | some seq =>
          simp only
          cases hsucc : checkedSucc seq with
          | none => exact .ownTooLarge
          | some succ =>
              obtain ⟨rfl, hlt⟩ := checkedSucc_eq_some hsucc
              exact .own hlt
      | none =>
          simp only
          cases hsucc : checkedSucc nextSeq with
          | none =>
              have hlast := checkedSucc_eq_none.mp hsucc
              subst hlast
              exact .wrapped rfl
          | some succ =>
              obtain ⟨rfl, hlt⟩ := checkedSucc_eq_some hsucc
              have hroom : nextSeq ≠ lastNumber := by
                intro hlast
                rw [checkedSucc_eq_none.mpr hlast] at hsucc
                cases hsucc
              simp only [max_same]
              exact .allocated hroom hlt
  | _ => exact .notObject

/-- A counter that moves past what is taken stays ahead. -/
theorem Ahead.grow {nextSeq next : UInt64} {numbers taken : List UInt64}
    (h : Ahead nextSeq numbers) (hup : ∀ seq, seq < nextSeq → seq < next)
    (hpast : ∀ seq ∈ taken, seq < next) : Ahead next (numbers ++ taken) := by
  refine ⟨hup 0 h.1, ?_⟩
  intro seq hmem
  rcases List.mem_append.mp hmem with hold | hnew
  · exact hup seq (h.2 seq hold)
  · exact hpast seq hnew

/-- A call keeps the counter ahead, unless it wraps. -/
theorem Ahead.reserve {nextSeq : UInt64} {numbers : List UInt64} {request : Value}
    (h : Ahead nextSeq numbers)
    (hroom : allocates nextSeq request ≠ none → nextSeq ≠ lastNumber) :
    Ahead (reserve nextSeq request).2 (numbers ++ numbersOf nextSeq request) := by
  have hrule := reserve_rule nextSeq request
  unfold numbersOf
  generalize Dap.reserve nextSeq request = result at hrule ⊢
  generalize allocates nextSeq request = allocation at hrule hroom ⊢
  cases hrule with
  | notObject => exact h.grow (fun _ hlt => hlt) nofun
  | own hlt =>
      refine h.grow (fun _ hbelow => lt_max_left hbelow _) ?_
      intro seq hmem
      rw [List.mem_singleton.mp hmem]
      exact lt_max_right hlt _
  | ownTooLarge => exact h.grow (fun _ hlt => hlt) nofun
  | allocated _ hlt =>
      refine h.grow (fun _ hbelow => UInt64.lt_trans hbelow hlt) ?_
      intro seq hmem
      have hseq : seq = nextSeq := by simpa using hmem
      rw [hseq]
      exact hlt
  | wrapped hlast => exact absurd hlast (hroom nofun)

/-! ## Calls one after another -/

/-- The counter of a client after these requests, from its first value on. -/
def counterAfter (requests : List Value) : UInt64 :=
  requests.foldl (fun nextSeq request => (reserve nextSeq request).2) ({} : DapClient).nextSeq

/-- The numbers allocated and accepted, from this value of the counter on. -/
def numbersFrom : UInt64 → List Value → List UInt64
  | _, [] => []
  | nextSeq, request :: rest =>
      numbersOf nextSeq request ++ numbersFrom (reserve nextSeq request).2 rest

/-- Every number the client allocates is positive and greater than all before
it, and a call that is rejected for its number leaves the counter alone. -/
def NumbersGrow (requests : List Value) : Prop :=
  ∀ before request after, requests = before ++ request :: after →
    (∀ seq, allocates (counterAfter before) request = some seq →
      0 < seq ∧ ∀ other ∈ numbersFrom ({} : DapClient).nextSeq before, other < seq) ∧
    ((reserve (counterAfter before) request).1 = .error sequenceTooLarge →
      counterAfter (before ++ [request]) = counterAfter before)

/-- No request without a number of its own comes when the counter is at its
last value. -/
def RoomForEach (requests : List Value) : Prop :=
  ∀ before request after, requests = before ++ request :: after →
    allocates (counterAfter before) request ≠ none → counterAfter before ≠ lastNumber

theorem numbersFrom_append (nextSeq : UInt64) (before after : List Value) :
    numbersFrom nextSeq (before ++ after) = numbersFrom nextSeq before ++
      numbersFrom (before.foldl (fun nextSeq request => (reserve nextSeq request).2) nextSeq)
        after := by
  induction before generalizing nextSeq with
  | nil => rfl
  | cons request before ih =>
      simp only [List.cons_append, numbersFrom, List.foldl_cons, ih, List.append_assoc]

theorem counterAfter_snoc (before : List Value) (request : Value) :
    counterAfter (before ++ [request]) = (reserve (counterAfter before) request).2 := by
  simp [counterAfter]

theorem RoomForEach.of_append {before after : List Value} (h : RoomForEach (before ++ after)) :
    RoomForEach before := by
  intro front request rest heq
  exact h front request (rest ++ after) (by simp [heq])

theorem ahead_of_room (before : List Value) (h : RoomForEach before) :
    Ahead (counterAfter before) (numbersFrom ({} : DapClient).nextSeq before) := by
  induction before using List.reverseRecOn with
  | nil => exact ⟨by decide, nofun⟩
  | append_singleton before request ih =>
      have hahead := (ih h.of_append).reserve (h before request [] rfl)
      rw [counterAfter_snoc, numbersFrom_append]
      simpa [numbersFrom, counterAfter] using hahead

/-- For every sequence of calls on one client: the numbers it allocates grow,
and a rejected call leaves the allocator alone, exactly when no request
without a number of its own comes at the last value of the counter. -/
theorem sequence_numbers_grow_iff (requests : List Value) :
    NumbersGrow requests ↔ RoomForEach requests := by
  constructor
  · intro h before request after heq hallocates hlast
    obtain ⟨_, hrejected⟩ := h before request after heq
    rw [counterAfter_snoc] at hrejected
    have hrule := reserve_rule (counterAfter before) request
    generalize reserve (counterAfter before) request = result at hrule hrejected
    generalize allocates (counterAfter before) request = allocation at hrule hallocates
    cases hrule with
    | notObject | own | ownTooLarge => exact hallocates rfl
    | allocated hroom => exact hroom hlast
    | wrapped =>
        have hzero : (0 : UInt64) = lastNumber := (hrejected rfl).trans hlast
        exact absurd hzero (by decide)
  · intro h before request after heq
    have hroom := h before request after heq
    obtain ⟨hpos, hbelow⟩ := ahead_of_room before (heq ▸ h).of_append
    rw [counterAfter_snoc]
    have hrule := reserve_rule (counterAfter before) request
    generalize reserve (counterAfter before) request = result at hrule
    generalize allocates (counterAfter before) request = allocation at hrule hroom
    refine ⟨?_, ?_⟩
    · intro seq hseq
      cases hrule with
      | notObject | own | ownTooLarge => cases hseq
      | allocated =>
          cases hseq
          exact ⟨hpos, hbelow⟩
      | wrapped hlast => exact absurd hlast (hroom nofun)
    · intro herror
      cases hrule with
      | notObject => rfl
      | own => cases herror
      | ownTooLarge => rfl
      | allocated => cases herror
      | wrapped hlast => exact absurd hlast (hroom nofun)

/-- A request numbered `u64::MAX - 1`, and two without a number. -/
def numbersUsedUp : List Value :=
  [.object [("seq", .number (.posInt 18446744073709551614))], .object [], .object []]

/-- The second call is rejected and the counter wraps; the third is given 0. -/
theorem sequence_numbers_wrap :
    ¬ NumbersGrow numbersUsedUp ∧
      (reserve (counterAfter (numbersUsedUp.take 1)) (.object [])).1 = .error sequenceTooLarge ∧
      counterAfter (numbersUsedUp.take 1) = lastNumber ∧
      counterAfter (numbersUsedUp.take 2) = 0 ∧
      allocates (counterAfter (numbersUsedUp.take 2)) (.object []) = some 0 := by
  have hzero : allocates (counterAfter (numbersUsedUp.take 2)) (.object []) = some 0 := by decide
  refine ⟨?_, by rfl, by decide, by decide, hzero⟩
  intro h
  obtain ⟨hallocated, _⟩ := h (numbersUsedUp.take 2) (.object []) [] rfl
  exact absurd (hallocated 0 hzero).1 (by decide)

/-- The number that a step of `request_sequence` allocates or accepts. -/
def CallPc.takes (nextSeq : UInt64) : CallPc → Option UInt64
  | .numbering request => allocates nextSeq request
  | .advancing seq _ => if checkedSucc seq = none then none else some seq
  | _ => none

namespace DapClient

variable {serde : SerdeJson} {s t : DapClient} {l : DapLabel} {c : CallId} {request : Value}

/-- `send` on an open client comes to `request_sequence`. -/
theorem run_send (hnew : s.calls c = none) (hopen : s.close = none) (request : Value) :
    ∃ t, run (step serde) s [.send c request, .advance c] = some t ∧ t.nextSeq = s.nextSeq ∧
      t.calls c = some { pc := .numbering request } := by
  simp [run, step, hnew, advance, setCall, hopen]

theorem advance_unnumbered {error : Error} {next : UInt64}
    (hcall : s.calls c = some { pc := .numbering request })
    (hseq : requestSequence s.nextSeq request = (.error error, next)) :
    ∃ t, s.step serde (.advance c) = some t ∧ t.nextSeq = next ∧
      t.calls c = some { pc := .returned (.failed error) } := by
  simp [step, hcall, advance, setCall, hseq]

theorem advance_numbered {seq next : UInt64} {request' : Value}
    (hcall : s.calls c = some { pc := .numbering request })
    (hseq : requestSequence s.nextSeq request = (.ok (seq, request'), next)) :
    ∃ t, s.step serde (.advance c) = some t ∧ t.nextSeq = next ∧
      t.calls c = some { pc := .advancing seq request' } := by
  simp [step, hcall, advance, setCall, hseq]

theorem advance_tooLarge {seq : UInt64}
    (hcall : s.calls c = some { pc := .advancing seq request }) (hsucc : checkedSucc seq = none) :
    ∃ t, s.step serde (.advance c) = some t ∧ t.nextSeq = s.nextSeq ∧
      t.calls c = some { pc := .returned (.failed sequenceTooLarge) } := by
  simp [step, hcall, advance, setCall, hsucc]

/-- Whether the request can be encoded does not matter to the counter. -/
theorem advance_reserved {seq succ : UInt64}
    (hcall : s.calls c = some { pc := .advancing seq request })
    (hsucc : checkedSucc seq = some succ) :
    ∃ t, s.step serde (.advance c) = some t ∧ t.nextSeq = max s.nextSeq succ := by
  cases hframe : encodeMessage serde request <;> simp [step, hcall, advance, setCall, hsucc, hframe]

/-- A call of `send` on an open client, with no other step in between, moves
the counter as `reserve` does. -/
theorem send_reserves (hnew : s.calls c = none) (hopen : s.close = none) (request : Value) :
    ∃ ls t, (∀ l ∈ ls, l.call = some c) ∧ run (step serde) s ls = some t ∧
      t.nextSeq = (reserve s.nextSeq request).2 ∧
      ∀ error, (reserve s.nextSeq request).1 = .error error →
        t.calls c = some { pc := .returned (.failed error) } := by
  obtain ⟨a, ha, hnext, hcall⟩ := @run_send serde s c hnew hopen request
  rw [← hnext]
  cases hseq : requestSequence a.nextSeq request with
  | mk result next =>
    cases result with
    | error error =>
        obtain ⟨t, ht, hnext', hreturned⟩ :=
          @advance_unnumbered serde a c request error next hcall hseq
        refine ⟨_, t, ?_, run_snoc_eq_some.mpr ⟨a, ha, ht⟩, ?_, ?_⟩
        · simp [DapLabel.call]
        · simp [reserve, hseq, hnext']
        · simp [reserve, hseq, hreturned]
    | ok numbered =>
        obtain ⟨b, hb, hnext', hadvancing⟩ :=
          @advance_numbered serde a c request numbered.1 next numbered.2 hcall hseq
        have hab := run_snoc_eq_some.mpr ⟨a, ha, hb⟩
        cases hsucc : checkedSucc numbered.1 with
        | none =>
            obtain ⟨t, ht, hsame, hreturned⟩ :=
              @advance_tooLarge serde b c numbered.2 numbered.1 hadvancing hsucc
            refine ⟨_, t, ?_, run_snoc_eq_some.mpr ⟨b, hab, ht⟩, ?_, ?_⟩
            · simp [DapLabel.call]
            · simp [reserve, hseq, hsucc, hsame, hnext']
            · simp [reserve, hseq, hsucc, hreturned]
        | some succ =>
            obtain ⟨t, ht, hmoved⟩ :=
              @advance_reserved serde b c numbered.2 numbered.1 succ hadvancing hsucc
            refine ⟨_, t, ?_, run_snoc_eq_some.mpr ⟨b, hab, ht⟩, ?_, ?_⟩
            · simp [DapLabel.call]
            · simp [reserve, hseq, hsucc, hmoved, hnext']
            · simp [reserve, hseq, hsucc]

/-! ## Calls of any number of threads -/

/-- The numbers a step takes: one at most. -/
def numbersTaken (s : DapClient) (l : DapLabel) : List UInt64 :=
  match l with
  | .advance c => ((s.calls c).bind (fun call => call.pc.takes s.nextSeq)).toList
  | _ => []

/-- An observer writes down all numbers allocated and accepted. -/
def watchNumbers (s : DapClient) (l : DapLabel) (_ : DapClient) (numbers : List UInt64) :
    List UInt64 :=
  numbers ++ s.numbersTaken l

/-- No call allocates a number at the last value of the counter. -/
def RoomToAllocate (s : DapClient) (l : DapLabel) : Prop :=
  ∀ c call request, l = .advance c → s.calls c = some call → call.pc = .numbering request →
    allocates s.nextSeq request ≠ none → s.nextSeq ≠ lastNumber

/-- What a step does to the counter, and what it takes. -/
inductive NumberTurn (s : DapClient) (l : DapLabel) : UInt64 → List UInt64 → Prop
  | same : NumberTurn s l s.nextSeq []
  | allocated {c : CallId} {call : Call} {request : Value} (hl : l = .advance c)
      (hcall : s.calls c = some call) (hpc : call.pc = .numbering request)
      (hallocates : allocates s.nextSeq request = some s.nextSeq) :
      NumberTurn s l (s.nextSeq + 1) [s.nextSeq]
  | accepted {seq : UInt64} (hlt : seq < seq + 1) :
      NumberTurn s l (max s.nextSeq (seq + 1)) [seq]

theorem requestSequence_counter (nextSeq : UInt64) (request : Value) :
    (allocates nextSeq request = none ∧ (requestSequence nextSeq request).2 = nextSeq) ∨
      (allocates nextSeq request = some nextSeq ∧
        (requestSequence nextSeq request).2 = nextSeq + 1) := by
  cases request with
  | object content =>
      simp only [allocates, requestSequence]
      cases ((Map.get content "seq").bind Value.asU64).filter (fun seq => 0 < seq) with
      | some seq => exact .inl ⟨rfl, rfl⟩
      | none => exact .inr ⟨rfl, rfl⟩
  | _ => exact .inl ⟨rfl, rfl⟩

/-- A step of `request_sequence` that gets a number. -/
theorem NumberTurn.numbering {call : Call} {result : Except Error (UInt64 × Value)} {next : UInt64}
    (hcall : s.calls c = some call) (hpc : call.pc = .numbering request)
    (hseq : requestSequence s.nextSeq request = (result, next)) :
    NumberTurn s (.advance c) next (s.numbersTaken (.advance c)) := by
  have htaken : s.numbersTaken (.advance c) = (allocates s.nextSeq request).toList := by
    simp [numbersTaken, hcall, hpc, CallPc.takes]
  rw [htaken]
  rcases requestSequence_counter s.nextSeq request with ⟨hnone, hnext⟩ | ⟨hsome, hnext⟩
  · simp only [hseq] at hnext
    rw [hnone, hnext]
    exact .same
  · simp only [hseq] at hnext
    rw [hsome, hnext]
    exact .allocated rfl hcall hpc hsome

/-- A step of `request_sequence` whose number passes the check. -/
theorem NumberTurn.advancing {call : Call} {seq succ : UInt64}
    (hcall : s.calls c = some call) (hpc : call.pc = .advancing seq request)
    (hsucc : checkedSucc seq = some succ) :
    NumberTurn s (.advance c) (max s.nextSeq succ) (s.numbersTaken (.advance c)) := by
  have htaken : s.numbersTaken (.advance c) = [seq] := by
    simp [numbersTaken, hcall, hpc, CallPc.takes, hsucc]
  obtain ⟨rfl, hlt⟩ := checkedSucc_eq_some hsucc
  rw [htaken]
  exact .accepted hlt

/-- A step at any other place takes no number. -/
theorem NumberTurn.elsewhere {call : Call} (hcall : s.calls c = some call)
    (hpc : call.pc.takes s.nextSeq = none) :
    NumberTurn s (.advance c) s.nextSeq (s.numbersTaken (.advance c)) := by
  have htaken : s.numbersTaken (.advance c) = [] := by simp [numbersTaken, hcall, hpc]
  rw [htaken]
  exact .same

theorem number_turn (h : s.step serde l = some t) :
    NumberTurn s l t.nextSeq (s.numbersTaken l) := by
  cases step_rule h with
  | send hnew => exact .same
  | move hcall hmove =>
      rename_i c call pc next
      show NumberTurn s l next (s.numbersTaken l)
      generalize hfrom : call.pc = place at hmove
      cases hmove with
      | unnumbered hseq | numbered hseq => exact .numbering hcall hfrom hseq
      | unencoded hsucc | encoded hsucc => exact .advancing hcall hfrom hsucc
      | tooLarge hsucc => exact .elsewhere hcall (by simp [hfrom, CallPc.takes, hsucc])
      | refused | checked | taken | foundClosed | foundOpen =>
          exact .elsewhere hcall (by rw [hfrom]; rfl)
      | _ => exact .same
  | insert hcall hpc | close hcall hpc | remove hcall hpc | leave hcall hpc =>
      exact .elsewhere hcall (by rw [hpc]; rfl)
  | respond hevent hseq hentry =>
      rename_i message seq d
      have hsame : (s.complete d (.ok message)).nextSeq = s.nextSeq := by
        unfold complete
        split <;> rfl
      show NumberTurn s _ (s.complete d (.ok message)).nextSeq []
      rw [hsame]
      exact .same
  | _ => exact .same

/-- A step keeps the counter ahead, unless it allocates the last number. -/
theorem ahead_step {numbers : List UInt64} (hs : Ahead s.nextSeq numbers)
    (hroom : s.RoomToAllocate l) (h : s.step serde l = some t) :
    Ahead t.nextSeq (numbers ++ s.numbersTaken l) := by
  have hturn := number_turn h
  generalize s.numbersTaken l = taken at hturn ⊢
  generalize t.nextSeq = next at hturn ⊢
  cases hturn with
  | same => exact hs.grow (fun _ hlt => hlt) nofun
  | allocated hl hcall hpc hallocates =>
      have hlast := hroom _ _ _ hl hcall hpc (by rw [hallocates]; nofun)
      have hlt : s.nextSeq < s.nextSeq + 1 := by
        cases hsucc : checkedSucc s.nextSeq with
        | none => exact absurd (checkedSucc_eq_none.mp hsucc) hlast
        | some succ => exact (checkedSucc_eq_some hsucc).2
      refine hs.grow (fun _ hbelow => UInt64.lt_trans hbelow hlt) ?_
      intro seq hmem
      rw [List.mem_singleton.mp hmem]
      exact hlt
  | accepted hlt =>
      refine hs.grow (fun _ hbelow => lt_max_left hbelow _) ?_
      intro seq hmem
      rw [List.mem_singleton.mp hmem]
      exact lt_max_right hlt _

/-- The same for any number of threads: in a run in which no call allocates
the last number, the next number the client allocates is positive and greater
than all numbers taken so far, and a number that is rejected was not allocated. -/
theorem threads_numbers_grow {ls : List DapLabel} {o : Observed DapClient (List UInt64)}
    (hrun : run (observe (step serde) watchNumbers) ⟨{}, []⟩ ls = some o)
    (hroom : StepsMeet (step serde) RoomToAllocate {} ls) :
    (∀ request seq, allocates o.state.nextSeq request = some seq →
      0 < seq ∧ ∀ other ∈ o.notes, other < seq) ∧
    ∀ seq, checkedSucc seq = none → seq ∉ o.notes := by
  have hmeets : StepsMeet (observe (step serde) watchNumbers) (fun o l => o.state.RoomToAllocate l)
      ⟨{}, []⟩ ls := StepsMeet.observe hroom
  have hstep : ∀ (a : Observed DapClient (List UInt64)) (l : DapLabel) b,
      Ahead a.state.nextSeq a.notes → a.state.RoomToAllocate l →
      observe (step serde) watchNumbers a l = some b → Ahead b.state.nextSeq b.notes := by
    intro a l b ha hok hab
    obtain ⟨hstep, hnotes⟩ := observe_cases hab
    rw [hnotes]
    exact ahead_step ha hok hstep
  have hahead : Ahead o.state.nextSeq o.notes :=
    run_invariant_of_meets hstep hrun hmeets ⟨by decide, nofun⟩
  refine ⟨?_, ?_⟩
  · intro request seq hallocates
    rcases requestSequence_counter o.state.nextSeq request with ⟨hnone, _⟩ | ⟨hsome, _⟩
    · rw [hnone] at hallocates
      cases hallocates
    · rw [hsome] at hallocates
      cases hallocates
      exact hahead
  · intro seq hnone hmem
    have hlt := hahead.2 seq hmem
    rw [checkedSucc_eq_none.mp hnone, UInt64.lt_iff_toNat_lt] at hlt
    have hle := o.state.nextSeq.toNat_lt
    have hlast : lastNumber.toNat = 2 ^ 64 - 1 := by decide
    omega

end DapClient

end Kernmini.Dap
