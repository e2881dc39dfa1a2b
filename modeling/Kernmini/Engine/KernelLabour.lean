/-
Kernmini.Engine.KernelLabour — what a kernel still has to do, as a number.

The steps counted are those of the loop, of the stop jobs and of the shells,
with the returns of the languages, but without new input and without the end
that comes from outside (`Label.settles`). The labour of the shells enters as
it is; a message that is put to a shell is paid for by the request it stands
for. An interrupt or a release is put to every shell there is, and a request
that comes before it may create one more: so a control request is priced by
the shells there are and those that may come to be (`ahead`), a number that
never grows. What the debugger returns may carry any number of events, which
are sent one by one; they come on top (`Label.events`).
-/
import Mathlib
import Kernmini.Engine.Settle
import Kernmini.Engine.Teardown

namespace Kernmini.Engine

open Kernmini.Wire Kernmini.Lib

/-! ## Prices -/

/-- `stop_shell` puts two controls, and waits. -/
def StopPhase.price : StopPhase → Nat
  | .interrupt => 30
  | .stop => 18
  | .join => 6

def StopJob.price (job : StopJob) : Nat := (job.phase.map StopPhase.price).getD 0

/-- With `n` shells there are or may come to be. -/
def After.price (n : Nat) : After → Nat
  | .select => 0
  | .pending _ => 20 * n + 20

def Creation.price (n : Nat) : Creation → Nat
  | .route _ after => 70 + after.price n
  | .command _ _ | .request _ => 11

/-- With `n` shells there are or may come to be, and `m` in the table. While
the loop serves it has the end before it, which stops each of them. -/
def MainPc.price (n m : Nat) : MainPc → Nat
  | .select | .interruptFailed _ _ => 30 * n + 10
  | .route _ after => 30 * n + 105 + after.price n
  | .create _ purpose => 30 * n + 30 + purpose.price n
  | .send _ _ after => 30 * n + 70 + after.price n
  | .routePending _ => 30 * n + 30 + 20 * n
  | .interruptShells _ todo _ => 30 * n + 15 + 15 * todo.length
  | .release todo _ _ => 30 * n + 15 + 20 * todo.length
  | .awaitRelease _ _ todo _ _ => 30 * n + 18 + 20 * todo.length
  | .debug _ => 30 * n + 15
  | .returning _ => 30 * m + 5
  | .stopShells [] _ _ => 1
  | .stopShells (_ :: todo) phase _ => phase.price + 30 * todo.length + 1
  | .returned _ => 0

section

variable (n m k mark : Nat) (a : Arrival .control) (b : Arrival .shell) (after : After)
  (todo : List TaskId) (found : Bool) (request : Option (Arrival .control)) (error : Error)
  (result : Except Error Unit) (phase : StopPhase) (id : String) (purpose : Creation)

@[simp] theorem MainPc.price_select : MainPc.select.price n m = 30 * n + 10 := rfl
@[simp] theorem MainPc.price_interruptFailed :
    (MainPc.interruptFailed mark error).price n m = 30 * n + 10 := rfl
@[simp] theorem MainPc.price_route :
    (MainPc.route b after).price n m = 30 * n + 105 + after.price n := rfl
@[simp] theorem MainPc.price_create :
    (MainPc.create id purpose).price n m = 30 * n + 30 + purpose.price n := rfl
@[simp] theorem MainPc.price_send :
    (MainPc.send k b after).price n m = 30 * n + 70 + after.price n := rfl
@[simp] theorem MainPc.price_routePending :
    (MainPc.routePending a).price n m = 30 * n + 30 + 20 * n := rfl
@[simp] theorem MainPc.price_interruptShells :
    (MainPc.interruptShells mark todo request).price n m = 30 * n + 15 + 15 * todo.length := rfl
@[simp] theorem MainPc.price_release :
    (MainPc.release todo found a).price n m = 30 * n + 15 + 20 * todo.length := rfl
@[simp] theorem MainPc.price_awaitRelease :
    (MainPc.awaitRelease k mark todo found a).price n m = 30 * n + 18 + 20 * todo.length := rfl
@[simp] theorem MainPc.price_debug : (MainPc.debug a).price n m = 30 * n + 15 := rfl
@[simp] theorem MainPc.price_returning : (MainPc.returning result).price n m = 30 * m + 5 := rfl
@[simp] theorem MainPc.price_stopShells_nil :
    (MainPc.stopShells [] phase result).price n m = 1 := rfl
@[simp] theorem MainPc.price_stopShells_cons :
    (MainPc.stopShells (k :: todo) phase result).price n m =
      phase.price + 30 * todo.length + 1 := rfl
@[simp] theorem MainPc.price_returned : (MainPc.returned result).price n m = 0 := rfl

end

/-- A shell may be created where the loop is. -/
def MainPc.ahead : MainPc → Nat
  | .route _ _ | .create _ _ => 1
  | _ => 0

theorem After.price_mono {n n' : Nat} (h : n ≤ n') (after : After) : after.price n ≤ after.price n' := by
  cases after with
  | select => exact Nat.le_refl _
  | pending a =>
      simp only [price]
      omega

theorem MainPc.price_mono {n n' : Nat} (h : n ≤ n') (m : Nat) (pc : MainPc) :
    pc.price n m ≤ pc.price n' m := by
  cases pc with
  | route a after | send k a after =>
      have hle := after.price_mono h
      simp only [price]
      omega
  | create id purpose =>
      cases purpose with
      | route a after =>
          have hle := after.price_mono h
          simp only [price_create, Creation.price]
          omega
      | _ =>
          simp only [price_create, Creation.price]
          omega
  | stopShells todo phase result => cases todo <;> exact Nat.le_refl _
  | _ =>
      simp only [price]
      omega

@[simp] theorem After.price_pc (after : After) (n m : Nat) :
    after.pc.price n m = 30 * n + 10 + after.price n := by
  cases after with
  | select => rfl
  | pending a =>
      simp only [After.pc, MainPc.price, After.price]
      omega

@[simp] theorem After.ahead_pc (after : After) : after.pc.ahead = 0 := by
  cases after <;> rfl

/-! ## Sums -/

/-- One element of a sum is replaced. -/
theorem sum_map_set {α : Type*} (f : α → Nat) {xs : List α} {i : Nat} {x : α} (y : α)
    (hx : xs[i]? = some x) : ((xs.set i y).map f).sum + f x = (xs.map f).sum + f y := by
  induction xs generalizing i with
  | nil => simp at hx
  | cons z xs ih =>
      cases i with
      | zero =>
          simp only [List.getElem?_cons_zero, Option.some.injEq] at hx
          subst hx
          simp only [List.set_cons_zero, List.map_cons, List.sum_cons]
          omega
      | succ i =>
          have hrest := ih (by simpa using hx)
          simp only [List.set_cons_succ, List.map_cons, List.sum_cons]
          omega

namespace Shell

theorem labour_deliver {t t' : Shell} {inbound : Inbound} (h : t.deliver inbound = some t') :
    t'.labour = t.labour + 47 := by
  unfold deliver at h
  split at h
  · cases h
    simp [labour, effort, turns]
    omega
  · cases h

theorem labour_control {t t' : Shell} {c : ShellControl} (h : t.control c = some t') :
    t'.labour = t.labour + 10 := by
  unfold control at h
  split at h
  · cases h
    simp [labour, effort, turns]
    omega
  · cases h

theorem labour_init : Shell.labour {} = 27 := rfl

end Shell

namespace Kernel

variable {services : Services} {s s' : Kernel} {l : Label} {g : Nat}

/-! ## The labour of a kernel -/

def Branch.settles : Branch → Bool
  | .background _ | .terminate => false
  | .failed | .reaped _ | .notified _ | .shell | .command _ | .control _ => true

/-- The steps of a kernel without further input. -/
def Label.settles : Label → Bool
  | .shell _ l => l.settles
  | .select b => b.settles
  | .emit | .next _ | .childCreated _ | .debugReturned _ | .stop _ => true
  | .receive _ | .receiveControl _ | .command _ | .notify => false

/-- The events the debugger returns. -/
def Label.events : Label → Nat
  | .debugReturned (.ok result) => (((result.get "events").bind Value.asArray).getD []).length
  | _ => 0

/-- The shells of the table. -/
def size (s : Kernel) : Nat := (HashMap.values s.shells).length

/-- The shells there are or may come to be. -/
def ahead (s : Kernel) : Nat :=
  s.size + s.shell.length + s.control.length + s.commands.length + s.pc.ahead

/-- What does not depend on the number of shells. -/
def standing (s : Kernel) : Nat :=
  (s.tasks.map Shell.labour).sum + (s.stops.map StopJob.price).sum + s.out.length +
    s.failures.length + 100 * s.shell.length + 60 * s.commands.length + 70 * s.control.length

/-- What waits to be put to every shell. -/
def sweeps (s : Kernel) : Nat :=
  20 * (s.control.length * s.ahead) + if s.notified then 20 * s.ahead + 10 else 0

def labour (s : Kernel) : Nat := s.standing + s.sweeps + s.pc.price s.ahead s.size

theorem sweeps_le (hahead : s'.ahead ≤ s.ahead) (hcontrol : s'.control = s.control)
    (hnotified : s'.notified = s.notified) : s'.sweeps ≤ s.sweeps := by
  have hle := Nat.mul_le_mul_left s.control.length hahead
  simp only [sweeps, hcontrol, hnotified]
  split <;> omega

/-- A control request is taken up. -/
theorem sweeps_control {a : Arrival .control} (hahead : s'.ahead ≤ s.ahead)
    (hcontrol : s.control = a :: s'.control) (hnotified : s'.notified = s.notified) :
    s'.sweeps + 20 * s.ahead ≤ s.sweeps := by
  have hle := Nat.mul_le_mul_left s'.control.length hahead
  simp only [sweeps, hcontrol, hnotified, List.length_cons, Nat.succ_mul]
  split <;> omega

/-- A notification is taken up. -/
theorem sweeps_notified (hahead : s'.ahead ≤ s.ahead) (hcontrol : s'.control = s.control)
    (hnotified : s.notified = true) (hnotified' : s'.notified = false) :
    s'.sweeps + 20 * s.ahead + 10 ≤ s.sweeps := by
  have hle := Nat.mul_le_mul_left s.control.length hahead
  simp only [sweeps, hcontrol, hnotified, hnotified', if_true, Bool.false_eq_true, if_false]
  omega

/-- A step that takes up no control request and no notification. -/
theorem labour_lt_of (hahead : s'.ahead ≤ s.ahead) (hcontrol : s'.control = s.control)
    (hnotified : s'.notified = s.notified)
    (h : s'.standing + s'.pc.price s'.ahead s'.size <
      s.standing + s.pc.price s.ahead s.size + g) : s'.labour < s.labour + g := by
  have hle := sweeps_le hahead hcontrol hnotified
  unfold labour
  omega

theorem size_erase {id : String} {k : TaskId} (h : s.shells.lookup id = some k) :
    s.size = (HashMap.values (s.shells.erase id)).length + 1 := by
  rw [size, (HashMap.values_erase h).length_eq, List.length_cons]

theorem length_of_order {order : List TaskId} (h : s.isOrder order = true) : order.length = s.size :=
  (List.isPerm_iff.mp h).length_eq

/-! ## Messages -/

theorem length_replySubshellError_le (request : Message) (ename evalue : String) :
    (replySubshellError request ename evalue).length ≤ 4 := by
  unfold replySubshellError
  split
  · exact Shell.length_replyError_le _ _
  · exact Nat.zero_le 4

theorem length_replySubshellNotFound_le (request : Message) :
    (replySubshellNotFound request).length ≤ 4 :=
  length_replySubshellError_le _ _ _

@[simp] theorem length_say {router : Router} (a : Arrival router) (es : List Emission) :
    (s.say a es).out.length = s.out.length + es.length := by
  simp [say]

/-! ## The handlers -/

/-- What routing a message to its shell comes to. -/
inductive Routed (s : Kernel) (after : After) : Kernel → Prop
  | send (k : TaskId) (a : Arrival .shell) : Routed s after { s with pc := .send k a after }
  | said (out : List ((Router × Nat) × Emission)) (hlen : out.length ≤ s.out.length + 4) :
      Routed s after { s with out, pc := after.pc }

theorem routeTo_routed {id : String} {a : Arrival .shell} {after : After} :
    Routed s after (s.routeTo id a after) := by
  unfold routeTo
  split
  · exact .send _ _
  · refine .said _ ?_
    have hlen := length_replySubshellNotFound_le a.request
    simp [say]
    omega

theorem created_routed {id : String} {a : Arrival .shell} {after : After}
    (result : Except Error Unit) : Routed s after (s.created id (.route a after) result) := by
  cases result with
  | ok _ => exact routeTo_routed
  | error error =>
      refine .said _ ?_
      have hlen := length_replySubshellError_le a.request "SubshellCreationError" error.message
      simp [say]
      omega

/-- What the other two callers of `create_subshell` do with its result. -/
inductive Answered (s : Kernel) : Kernel → Prop
  | intro (out : List ((Router × Nat) × Emission)) (answers : List (TaskId × Except Error String))
      (routeOverrides : HashMap String String) (hlen : out.length ≤ s.out.length + 1) :
      Answered s { s with out, answers, routeOverrides, pc := .select }

theorem Answered.out_le (h : Answered s s') : s'.out.length ≤ s.out.length + 1 := by
  obtain ⟨out, answers, routeOverrides, hlen⟩ := h
  exact hlen

theorem created_command {id clientSession : String} {cell : TaskId} (result : Except Error Unit) :
    Answered s (s.created id (.command cell clientSession) result) := by
  cases result with
  | ok _ => exact .intro s.out _ _ (Nat.le_succ _)
  | error error => exact .intro s.out _ s.routeOverrides (Nat.le_succ _)

theorem created_request {id : String} {a : Arrival .control} (result : Except Error Unit) :
    Answered s (s.created id (.request a) result) := by
  cases result with
  | ok | error => exact .intro _ s.answers s.routeOverrides (by simp [say])

/-- What a handler may leave to be done, with `n` shells there are or may come
to be: at most `b` more. -/
structure Within (s s' : Kernel) (n b : Nat) : Prop where
  ahead : s'.ahead ≤ n
  control : s'.control = s.control
  notified : s'.notified = s.notified
  price : s'.standing + s'.pc.price s'.ahead s'.size ≤ s.standing + b

theorem Routed.within {after : After} {n : Nat} (h : Routed s after s')
    (hn : s.size + s.shell.length + s.control.length + s.commands.length ≤ n) :
    Within s s' n (30 * n + 70 + after.price n) := by
  cases h with
  | send k a =>
      have hahead : Kernel.ahead { s with pc := .send k a after } ≤ n := hn
      have hafter := after.price_mono hahead
      refine ⟨hahead, rfl, rfl, ?_⟩
      simp only [standing, MainPc.price_send]
      omega
  | said out hlen =>
      have hahead : Kernel.ahead { s with out, pc := after.pc } ≤ n := by
        simpa [ahead, size] using hn
      have hafter := after.price_mono hahead
      refine ⟨hahead, rfl, rfl, ?_⟩
      simp only [standing, After.price_pc]
      omega

theorem Answered.within {n : Nat} (h : Answered s s')
    (hn : s.size + s.shell.length + s.control.length + s.commands.length ≤ n) :
    Within s s' n (30 * n + 11) := by
  obtain ⟨out, answers, routeOverrides, hlen⟩ := h
  have hahead : Kernel.ahead { s with out, answers, routeOverrides, pc := .select } ≤ n := hn
  refine ⟨hahead, rfl, rfl, ?_⟩
  simp only [standing, MainPc.price_select]
  omega

theorem created_within {id : String} {n : Nat} (purpose : Creation) (result : Except Error Unit)
    (hn : s.size + s.shell.length + s.control.length + s.commands.length ≤ n) :
    Within s (s.created id purpose result) n (30 * n + purpose.price n) := by
  cases purpose with
  | route a after =>
      have hw := (created_routed result : Routed s after (s.created id (.route a after) result)).within hn
      refine ⟨hw.ahead, hw.control, hw.notified, ?_⟩
      rw [Creation.price, ← Nat.add_assoc (30 * n)]
      exact hw.price
  | command cell clientSession => exact (created_command result).within hn
  | request a => exact (created_request result).within hn

theorem RouteRule.labour_lt {a : Arrival .shell} {after : After} (h : RouteRule s a after s')
    (hpc : s.pc = .route a after) : s'.labour < s.labour := by
  have hrouted : ∀ {m : Kernel}, Routed s after m → m.labour < s.labour := by
    intro m hm
    have hw := @Routed.within _ _ _ s.ahead hm (Nat.le_add_right _ _)
    refine @labour_lt_of s m 0 hw.ahead hw.control hw.notified ?_
    have hprice := hw.price
    simp only [hpc, MainPc.price_route]
    omega
  cases h with
  | known => exact hrouted routeTo_routed
  | create hnew h =>
      cases h with
      | refused | found => exact hrouted (created_routed _)
      | creating hid hnew =>
          have hahead : Kernel.ahead { s with pc := .create (s.routeId a.request) (.route a after) } =
              s.ahead := by simp [ahead, size, hpc, MainPc.ahead]
          refine @labour_lt_of s _ 0 hahead.le rfl rfl ?_
          simp only [standing, hahead, hpc, MainPc.price_route, MainPc.price_create, Creation.price]
          omega

theorem CommandRule.labour_lt {c : SessionCommand} {rest : List SessionCommand}
    (h : CommandRule { s with commands := rest } c s') (hpc : s.pc = .select)
    (hcommands : s.commands = c :: rest) : s'.labour < s.labour := by
  have hanswered : ∀ {m : Kernel}, Answered { s with commands := rest } m → m.labour < s.labour := by
    intro m hm
    have hw := @Answered.within _ _ s.ahead hm (by
      simp only [ahead, hcommands, List.length_cons, size]
      omega)
    refine @labour_lt_of s m 0 hw.ahead hw.control hw.notified ?_
    have hprice := hw.price
    simp only [standing, hpc, hcommands, List.length_cons, MainPc.price_select] at hprice ⊢
    omega
  cases h with
  | refused =>
      refine @labour_lt_of s _ 0 ?_ rfl rfl ?_
      · simp [answer, ahead, size, hpc, hcommands]
      · simp [answer, standing, ahead, size, hpc, hcommands]
        omega
  | openSubshell h =>
      cases h with
      | refused | found => exact hanswered (created_command _)
      | creating hid hnew =>
          refine @labour_lt_of s _ 0 ?_ rfl rfl ?_
          · simp [ahead, size, hpc, hcommands, MainPc.ahead]
          · simp [standing, ahead, size, hpc, hcommands, MainPc.ahead, Creation.price]
            omega
  | close hroute =>
      refine @labour_lt_of s _ 0 ?_ rfl rfl ?_
      · simp [answer, ahead, size, hpc, hcommands]
      · simp [answer, standing, ahead, size, hpc, hcommands]
        omega
  | closeDelete hroute hlookup =>
      have hsize := size_erase (s := s) hlookup
      rw [size] at hsize
      refine @labour_lt_of s _ 0 ?_ rfl rfl ?_
      · simp only [stopInBackground, ahead, hpc, hcommands, size, List.length_cons]
        omega
      · simp only [stopInBackground, standing, ahead, hpc, hcommands, size, List.length_cons,
          List.map_append, List.sum_append, List.map_cons, List.map_nil, List.sum_cons, List.sum_nil,
          StopJob.price, Bool.false_eq_true, if_false, Option.map_some, Option.getD_some,
          StopPhase.price, MainPc.price_select]
        omega

/-- At most one message is left for a control request that is answered at once. -/
theorem handleControl_out_le (fresh : String) (a : Arrival .control) :
    (s.handleControl services fresh a).out.length ≤ s.out.length + 1 := by
  have hcreated : ∀ {id : String} {result : Except Error Unit},
      (s.created id (.request a) result).out.length ≤ s.out.length + 1 := by
    intro id result
    exact (created_request result).out_le
  unfold handleControl
  simp only
  split
  · simp
  · split
    · exact Nat.le_succ _
    · split
      · split
        · simp
        · unfold createSubshell
          split
          · exact hcreated
          · split
            · exact hcreated
            · exact Nat.le_succ _
      · split
        · simp
        · split
          · split
            · exact Nat.le_succ _
            · simp
          · split
            · exact Nat.le_succ _
            · split
              · simp
              · split
                · simp
                · exact Nat.le_succ _

theorem out_of_takeControl {fresh : String} (h : s.step services (.select (.control fresh)) = some s') :
    s'.out.length ≤ s.out.length + 1 := by
  simp only [step] at h
  split at h
  · simp only [selectStep] at h
    split at h
    · split at h
      · cases h
        exact handleControl_out_le _ _
      · cases h
    · cases h
  · cases h

/-- A control request is taken up, with what is put to every shell for it. -/
theorem labour_lt_control {a : Arrival .control} (hcontrol : s.control = a :: s'.control)
    (hahead : s'.ahead ≤ s.ahead) (hnotified : s'.notified = s.notified)
    (h : s'.standing + s'.pc.price s'.ahead s'.size <
      s.standing + s.pc.price s.ahead s.size + 20 * s.ahead) : s'.labour < s.labour := by
  have hle := sweeps_control hahead hcontrol hnotified
  unfold labour
  omega

theorem ControlRule.labour_lt {a : Arrival .control} {rest : List (Arrival .control)}
    (h : ControlRule { s with control := rest } a s') (hpc : s.pc = .select)
    (hcontrol : s.control = a :: rest) (hout : s'.out.length ≤ s.out.length + 1) :
    s'.labour < s.labour := by
  have hanswered : ∀ {m : Kernel}, Answered { s with control := rest } m → m.labour < s.labour := by
    intro m hm
    have hw := @Answered.within _ _ s.ahead hm (by
      simp only [ahead, hcontrol, List.length_cons, size]
      omega)
    have hm : s.control = a :: m.control := by rw [hw.control, hcontrol]
    refine labour_lt_control hm hw.ahead hw.notified ?_
    have hprice := hw.price
    simp only [standing, hpc, hcontrol, List.length_cons, MainPc.price_select] at hprice ⊢
    omega
  cases h with
  | shutdown htype =>
      refine labour_lt_control hcontrol ?_ rfl ?_
      · simp [say, ahead, size, hpc, hcontrol, MainPc.ahead]
      · simp only [say, standing, ahead, size, hpc, hcontrol, List.length_cons,
          MainPc.price_returning, MainPc.price_select] at hout ⊢
        omega
  | pending htype =>
      refine labour_lt_control hcontrol ?_ rfl ?_
      · simp [ahead, size, hpc, hcontrol, MainPc.ahead]
      · simp only [standing, ahead, size, hpc, hcontrol, List.length_cons, MainPc.ahead,
          MainPc.price_routePending, MainPc.price_select]
        omega
  | create htype h =>
      cases h with
      | refused | found => exact hanswered (created_request _)
      | creating hid hnew =>
          refine labour_lt_control hcontrol ?_ rfl ?_
          · simp [ahead, size, hpc, hcontrol, MainPc.ahead]
          · simp only [standing, ahead, size, hpc, hcontrol, List.length_cons, MainPc.ahead,
              MainPc.price_create, MainPc.price_select, Creation.price]
            omega
  | delete htype hlookup =>
      have hsize := size_erase (s := s) hlookup
      rw [size] at hsize
      refine labour_lt_control hcontrol ?_ rfl ?_
      · simp only [stopInBackground, ahead, hpc, hcontrol, size, List.length_cons]
        omega
      · simp only [stopInBackground, standing, ahead, hpc, hcontrol, size, List.length_cons,
          List.map_append, List.sum_append, List.map_cons, List.map_nil, List.sum_cons, List.sum_nil,
          StopJob.price, if_true, Option.map_some, Option.getD_some, StopPhase.price,
          MainPc.price_select]
        omega
  | debug htype =>
      refine labour_lt_control hcontrol ?_ rfl ?_
      · simp [say, ahead, size, hpc, hcontrol, MainPc.ahead]
      · simp only [say, standing, ahead, size, hpc, hcontrol, List.length_cons, MainPc.ahead,
          MainPc.price_debug, MainPc.price_select] at hout ⊢
        omega
  | reply hdelete =>
      refine labour_lt_control hcontrol ?_ rfl ?_
      · simp [say, ahead, size, hcontrol]
      · simp only [say, standing, ahead, size, hpc, hcontrol, List.length_cons,
          MainPc.price_select] at hout ⊢
        omega
  | ignored hrequest =>
      refine labour_lt_control hcontrol ?_ rfl ?_
      · simp [ahead, size, hcontrol]
      · simp only [standing, ahead, size, hpc, hcontrol, List.length_cons, MainPc.price_select]
        omega

/-! ## Stopping a shell -/

/-- What `stop_shell` does in one step. -/
theorem stopStep_cases {k : TaskId} {phase : StopPhase} {m : Kernel}
    {r : StopPhase ⊕ Except Error Unit} (h : s.stopStep k phase = some (m, r)) :
    (∃ c next, r = .inl next ∧
      (phase = .interrupt ∧ c = .interrupt ∧ next = .stop ∨ phase = .stop ∧ c = .stop ∧ next = .join) ∧
      (m = s ∧ s.sendControl k c = .closed ∨ ∃ t t', s.tasks[k]? = some t ∧ t.control c = some t' ∧
        m = { s with tasks := s.tasks.set k t' })) ∨
    ∃ result, r = .inr result ∧ phase = .join ∧ m = s ∧ s.taskResult k = some result := by
  cases phase with
  | interrupt =>
      simp only [stopStep] at h
      split at h
      · next m' hsend =>
          cases h
          obtain ⟨t, t', hget, hput, heq⟩ := sendTo_sent hsend
          exact .inl ⟨_, _, rfl, .inl ⟨rfl, rfl, rfl⟩, .inr ⟨t, t', hget, hput, heq⟩⟩
      · next hsend =>
          cases h
          exact .inl ⟨_, _, rfl, .inl ⟨rfl, rfl, rfl⟩, .inl ⟨rfl, hsend⟩⟩
      · cases h
  | stop =>
      simp only [stopStep] at h
      split at h
      · next m' hsend =>
          cases h
          obtain ⟨t, t', hget, hput, heq⟩ := sendTo_sent hsend
          exact .inl ⟨_, _, rfl, .inr ⟨rfl, rfl, rfl⟩, .inr ⟨t, t', hget, hput, heq⟩⟩
      · next hsend =>
          cases h
          exact .inl ⟨_, _, rfl, .inr ⟨rfl, rfl, rfl⟩, .inl ⟨rfl, hsend⟩⟩
      · cases h
  | join =>
      simp only [stopStep] at h
      split at h
      · next result hresult =>
          cases h
          exact .inr ⟨result, rfl, rfl, rfl, hresult⟩
      · cases h

/-- A step of `stop_shell` that goes on costs, with what it puts to the shell. -/
theorem stopStep_price {k : TaskId} {phase next : StopPhase} {m : Kernel}
    (h : s.stopStep k phase = some (m, .inl next)) :
    (m.tasks.map Shell.labour).sum + next.price < (s.tasks.map Shell.labour).sum + phase.price ∧
      ∃ tasks, m = { s with tasks } := by
  rcases stopStep_cases h with ⟨c, next', heq, hphase, hput⟩ | ⟨result, heq, _⟩
  · cases heq
    have hprice : next.price + 12 = phase.price := by
      rcases hphase with ⟨rfl, _, rfl⟩ | ⟨rfl, _, rfl⟩ <;> rfl
    rcases hput with ⟨rfl, _⟩ | ⟨t, t', hget, hcontrol, rfl⟩
    · exact ⟨by omega, m.tasks, rfl⟩
    · have hsum := sum_map_set Shell.labour t' hget
      have hlabour := Shell.labour_control hcontrol
      refine ⟨?_, s.tasks.set k t', rfl⟩
      show ((s.tasks.set k t').map Shell.labour).sum + _ < _
      omega
  · cases heq

/-- The last loop at a shell. -/
theorem stopShells_step {order : List TaskId} {k : TaskId} {todo : List TaskId} {phase : StopPhase}
    {result : Except Error Unit} (h : s.step services (.next order) = some s')
    (hpc : s.pc = .stopShells (k :: todo) phase result) :
    (∃ m next, s.stopStep k phase = some (m, .inl next) ∧
      s' = { m with pc := .stopShells (k :: todo) next result }) ∨
    ∃ ended result', s.taskResult k = some ended ∧ phase = .join ∧
      s' = { s with pc := .stopShells todo .interrupt result' } := by
  simp only [step] at h
  split at h
  · simp only [next, hpc, stopShellsStep] at h
    split at h
    · next m phase' hstop =>
        cases h
        exact .inl ⟨m, phase', hstop, rfl⟩
    · next m ended hstop =>
        cases h
        rcases stopStep_cases hstop with ⟨_, _, heq, _⟩ | ⟨_, heq, hphase, rfl, hended⟩
        · cases heq
        · cases heq
          exact .inr ⟨ended, _, hended, hphase, rfl⟩
    · cases h
  · cases h

theorem stopShells_labour_lt {order : List TaskId} {k : TaskId} {todo : List TaskId}
    {phase : StopPhase} {result : Except Error Unit} (h : s.step services (.next order) = some s')
    (hpc : s.pc = .stopShells (k :: todo) phase result) : s'.labour < s.labour := by
  rcases stopShells_step h hpc with ⟨m, next, hstop, rfl⟩ | ⟨ended, result', _, rfl, rfl⟩
  · obtain ⟨hprice, tasks, rfl⟩ := stopStep_price hstop
    have hprice : (tasks.map Shell.labour).sum + next.price <
      (s.tasks.map Shell.labour).sum + phase.price := hprice
    refine @labour_lt_of s _ 0 ?_ rfl rfl ?_
    · simp [ahead, size, hpc, MainPc.ahead]
    · simp only [standing, hpc, MainPc.price_stopShells_cons]
      omega
  · refine @labour_lt_of s _ 0 ?_ rfl rfl ?_
    · simp [ahead, size, hpc, MainPc.ahead]
    · simp only [standing, hpc, MainPc.price_stopShells_cons, StopPhase.price]
      cases todo with
      | nil =>
          simp only [MainPc.price_stopShells_nil]
          omega
      | cons k' todo =>
          simp only [MainPc.price_stopShells_cons, List.length_cons, StopPhase.price]
          omega

/-- A stop job at work. -/
theorem jobStep_cases {j : Nat} (h : s.jobStep j = some s') :
    ∃ job phase, s.stops[j]? = some job ∧ job.phase = some phase ∧
      ((∃ m next, s.stopStep job.task phase = some (m, .inl next) ∧
        s' = { m with stops := m.stops.set j { job with phase := some next } }) ∨
      ∃ ended, s.taskResult job.task = some ended ∧ phase = .join ∧
        s' = { s with stops := s.stops.set j { job with phase := none } }.stopDone job.done ended) := by
  unfold jobStep at h
  split at h
  · next job hjob =>
      split at h
      · next phase hphase =>
          refine ⟨job, phase, hjob, hphase, ?_⟩
          split at h
          · next m phase' hstop =>
              cases h
              exact .inl ⟨m, phase', hstop, rfl⟩
          · next m ended hstop =>
              cases h
              rcases stopStep_cases hstop with ⟨_, _, heq, _⟩ | ⟨_, heq, hjoin, rfl, hended⟩
              · cases heq
              · cases heq
                exact .inr ⟨ended, hended, hjoin, rfl⟩
          · cases h
      · cases h
  · cases h

theorem stopDone_eq (done : StopDone) (ended : Except Error Unit) :
    ∃ failures answers log, s.stopDone done ended = { s with failures, answers, log } ∧
      failures.length ≤ s.failures.length + 1 := by
  cases ended with
  | error error => exact ⟨_, s.answers, s.log, rfl, by simp⟩
  | ok _ =>
      cases done with
      | complete cell => exact ⟨s.failures, _, s.log, rfl, Nat.le_succ _⟩
      | reply a => exact ⟨s.failures, s.answers, _, rfl, Nat.le_succ _⟩

theorem jobStep_labour_lt {j : Nat} (h : s.jobStep j = some s') : s'.labour < s.labour := by
  obtain ⟨job, phase, hjob, hphase, hcase⟩ := jobStep_cases h
  have hprice : job.price = phase.price := by rw [StopJob.price, hphase]; rfl
  rcases hcase with ⟨m, next, hstop, rfl⟩ | ⟨ended, _, rfl, rfl⟩
  · obtain ⟨hlt, tasks, rfl⟩ := stopStep_price hstop
    have hlt : (tasks.map Shell.labour).sum + next.price <
      (s.tasks.map Shell.labour).sum + phase.price := hlt
    have hsum := sum_map_set StopJob.price { job with phase := some next } hjob
    have hnext : StopJob.price { job with phase := some next } = next.price := rfl
    refine @labour_lt_of s _ 0 (Nat.le_refl _) rfl rfl ?_
    show standing _ + s.pc.price s.ahead s.size < _
    simp only [standing]
    omega
  · have hsum := sum_map_set StopJob.price { job with phase := none } hjob
    have hover : StopJob.price { job with phase := none } = 0 := rfl
    have hjoin : StopPhase.join.price = 6 := rfl
    obtain ⟨failures, answers, log, heq, hfailures⟩ :=
      stopDone_eq (s := { s with stops := s.stops.set j { job with phase := none } }) job.done ended
    rw [heq]
    have hfailures : failures.length ≤ s.failures.length + 1 := hfailures
    refine @labour_lt_of s _ 0 (Nat.le_refl _) rfl rfl ?_
    show standing _ + s.pc.price s.ahead s.size < _
    simp only [standing]
    omega

/-! ## Every step -/

theorem debugReturned_eq (a : Arrival .control) (result : Except Error Value) :
    ∃ out, s.debugReturned a result = { s with out, pc := .select } ∧
      out.length = s.out.length + (Label.debugReturned result).events + 2 := by
  refine ⟨_, rfl, ?_⟩
  cases result with
  | ok result =>
      simp [say, Label.events]
      omega
  | error error =>
      simp only [say, Label.events, List.length_append, List.length_map]
      rfl

theorem size_le_ahead (s : Kernel) : s.size ≤ s.ahead := by
  unfold ahead
  omega

/-- A step that leaves the channels and the table alone. -/
theorem labour_lt_of_pc (hshells : s'.shells = s.shells) (hshell : s'.shell = s.shell)
    (hcommands : s'.commands = s.commands) (hcontrol : s'.control = s.control)
    (hnotified : s'.notified = s.notified) (hahead : s'.pc.ahead ≤ s.pc.ahead)
    (h : s'.standing + s'.pc.price s.ahead s.size < s.standing + s.pc.price s.ahead s.size + g) :
    s'.labour < s.labour + g := by
  have hle : s'.ahead ≤ s.ahead := by
    simp only [ahead, size, hshells, hshell, hcommands, hcontrol]
    omega
  have hprice := s'.pc.price_mono hle s.size
  refine labour_lt_of hle hcontrol hnotified ?_
  rw [size, hshells]
  exact Nat.lt_of_le_of_lt (Nat.add_le_add_left hprice _) h

/-- The loop goes on. -/
theorem next_labour_lt {order : List TaskId} (h : s.step services (.next order) = some s') :
    s'.labour < s.labour := by
  have hsize := s.size_le_ahead
  cases step_rule h with
  | route hpc h => exact h.labour_lt hpc
  | @deliver order k a after t t' hpc hget hput =>
      have hsum := sum_map_set Shell.labour t' hget
      have hlabour := Shell.labour_deliver hput
      refine @labour_lt_of_pc s _ 0 rfl rfl rfl rfl rfl (by simp) ?_
      simp only [standing, hpc, MainPc.price_send, After.price_pc]
      omega
  | @undelivered order k a after hpc hclosed =>
      have hlen := length_replySubshellNotFound_le a.request
      refine @labour_lt_of_pc s _ 0 rfl rfl rfl rfl rfl (by simp) ?_
      simp only [say, standing, hpc, MainPc.price_send, After.price_pc, List.length_append,
        List.length_map]
      omega
  | @takePending order a b rest hpc hshell =>
      have hahead : Kernel.ahead { s with shell := rest, pc := .route b (.pending a) } = s.ahead := by
        simp [ahead, size, hpc, hshell, MainPc.ahead]
        omega
      refine @labour_lt_of s _ 0 hahead.le rfl rfl ?_
      simp only [standing, hahead, hpc, hshell, List.length_cons, MainPc.price_route,
        MainPc.price_routePending, After.price]
      omega
  | @startInterrupt order a hpc hshell horder htype =>
      have hlen := length_of_order horder
      refine @labour_lt_of_pc s _ 0 rfl rfl rfl rfl rfl (Nat.zero_le _) ?_
      simp only [standing, hpc, MainPc.price_interruptShells, MainPc.price_routePending]
      omega
  | @interrupt order mark k todo request t t' hpc hget hput =>
      have hsum := sum_map_set Shell.labour t' hget
      have hlabour := Shell.labour_control hput
      refine @labour_lt_of_pc s _ 0 rfl rfl rfl rfl rfl (Nat.zero_le _) ?_
      simp only [standing, hpc, MainPc.price_interruptShells, List.length_cons]
      omega
  | interruptClosed hpc hclosed =>
      refine @labour_lt_of_pc s _ 0 rfl rfl rfl rfl rfl (Nat.zero_le _) ?_
      simp only [standing, hpc, MainPc.price_interruptShells, MainPc.price_interruptFailed]
      omega
  | interruptFailed hpc =>
      refine @labour_lt_of_pc s _ 0 rfl rfl rfl rfl rfl (Nat.zero_le _) ?_
      simp only [standing, hpc, MainPc.price_returning, MainPc.price_interruptFailed]
      omega
  | interruptReply hpc =>
      refine @labour_lt_of_pc s _ 0 rfl rfl rfl rfl rfl (Nat.zero_le _) ?_
      simp only [say, standing, hpc, MainPc.price_interruptShells, MainPc.price_select,
        List.length_append, List.length_map, List.length_cons, List.length_nil]
      omega
  | interruptDone hpc =>
      refine @labour_lt_of_pc s _ 0 rfl rfl rfl rfl rfl (Nat.zero_le _) ?_
      simp only [standing, hpc, MainPc.price_interruptShells, MainPc.price_select]
      omega
  | @startRelease order a hpc hshell horder =>
      have hlen := length_of_order horder
      refine @labour_lt_of_pc s _ 0 rfl rfl rfl rfl rfl (Nat.zero_le _) ?_
      simp only [standing, hpc, MainPc.price_release, MainPc.price_routePending]
      omega
  | @release order k todo found a t t' hpc hget hput =>
      have hsum := sum_map_set Shell.labour t' hget
      have hlabour := Shell.labour_control hput
      refine @labour_lt_of_pc s _ 0 rfl rfl rfl rfl rfl (Nat.zero_le _) ?_
      simp only [standing, hpc, MainPc.price_release, MainPc.price_awaitRelease, List.length_cons]
      omega
  | releaseClosed hpc hclosed =>
      refine @labour_lt_of_pc s _ 0 rfl rfl rfl rfl rfl (Nat.zero_le _) ?_
      simp only [standing, hpc, MainPc.price_release, MainPc.price_returning]
      omega
  | released hpc hget hanswer =>
      refine @labour_lt_of_pc s _ 0 rfl rfl rfl rfl rfl (Nat.zero_le _) ?_
      simp only [standing, hpc, MainPc.price_release, MainPc.price_awaitRelease]
      omega
  | unreleased hpc hget hanswer hended =>
      refine @labour_lt_of_pc s _ 0 rfl rfl rfl rfl rfl (Nat.zero_le _) ?_
      simp only [standing, hpc, MainPc.price_awaitRelease, MainPc.price_returning]
      omega
  | releaseReply hpc =>
      refine @labour_lt_of_pc s _ 0 rfl rfl rfl rfl rfl (Nat.zero_le _) ?_
      simp only [say, standing, hpc, MainPc.price_release, MainPc.price_select,
        List.length_append, List.length_map, List.length_cons, List.length_nil]
      omega
  | @drain order result hpc horder =>
      have hlen := length_of_order horder
      refine @labour_lt_of s _ 0 ?_ rfl rfl ?_
      · simp [ahead, size, hpc, MainPc.ahead, HashMap.values]
      · cases order with
        | nil =>
            simp only [standing, hpc, MainPc.price_returning, MainPc.price_stopShells_nil]
            omega
        | cons k todo =>
            simp only [List.length_cons] at hlen
            simp only [standing, hpc, MainPc.price_returning, MainPc.price_stopShells_cons,
              StopPhase.price]
            omega
  | stopPut hpc | stopClosed hpc | stopped hpc => exact stopShells_labour_lt h hpc
  | returned hpc =>
      refine @labour_lt_of_pc s _ 0 rfl rfl rfl rfl rfl (Nat.zero_le _) ?_
      simp only [standing, hpc, MainPc.price_stopShells_nil, MainPc.price_returned]
      omega

/-- A branch of the `select!`. -/
theorem select_labour_lt {b : Branch} (h : s.step services (.select b) = some s')
    (hb : b.settles = true) : s'.labour < s.labour := by
  have hsize := s.size_le_ahead
  cases step_rule h with
  | background => cases hb
  | terminate => cases hb
  | failed hpc hfailures =>
      refine @labour_lt_of_pc s _ 0 rfl rfl rfl rfl rfl (Nat.zero_le _) ?_
      simp only [standing, hpc, hfailures, List.length_cons, MainPc.price_select,
        MainPc.price_returning]
      omega
  | reapedParent hpc hlookup hended =>
      have hless := size_erase hlookup
      refine @labour_lt_of s _ 0 ?_ rfl rfl ?_
      · simp only [ahead, size, hpc, MainPc.ahead] at hless ⊢
        omega
      · simp only [standing, hpc, MainPc.price_select, MainPc.price_returning, ahead, size] at hless ⊢
        omega
  | reaped hpc hlookup hended hid =>
      have hless := size_erase hlookup
      refine @labour_lt_of s _ 0 ?_ rfl rfl ?_
      · simp only [ahead, size, hpc] at hless ⊢
        omega
      · simp only [standing, hpc, MainPc.price_select, ahead, size] at hless ⊢
        omega
  | reapedError hpc hlookup hended =>
      have hless := size_erase hlookup
      refine @labour_lt_of s _ 0 ?_ rfl rfl ?_
      · simp only [ahead, size, hpc, MainPc.ahead] at hless ⊢
        omega
      · simp only [standing, hpc, MainPc.price_select, MainPc.price_returning, ahead, size] at hless ⊢
        omega
  | @notified order hpc hnotified horder =>
      have hlen := length_of_order horder
      have hahead : Kernel.ahead { s with
          notified := false, pc := .interruptShells s.interrupted.length order none } = s.ahead := by
        simp [ahead, size, hpc, MainPc.ahead]
      have hle := sweeps_notified hahead.le rfl hnotified rfl
      simp only [labour, hahead, standing, hpc, MainPc.price_select, MainPc.price_interruptShells]
      omega
  | @takeShell a rest hpc hshell =>
      have hahead : Kernel.ahead { s with shell := rest, pc := .route a .select } = s.ahead := by
        simp [ahead, size, hpc, hshell, MainPc.ahead]
        omega
      refine @labour_lt_of s _ 0 hahead.le rfl rfl ?_
      simp only [standing, hahead, hpc, hshell, List.length_cons, MainPc.price_route,
        MainPc.price_select, After.price]
      omega
  | takeCommand hpc hcommands h => exact h.labour_lt hpc hcommands
  | takeControl hpc hcontrol h' => exact h'.labour_lt hpc hcontrol (out_of_takeControl h)

/-- The outcome of a creation. -/
theorem childCreated_labour_lt {result : Except Error Unit} (hnew : s.CreatesNew)
    (h : s.step services (.childCreated result) = some s') : s'.labour < s.labour := by
  cases step_rule h with
  | @childCreated id purpose hpc =>
      have hvalues := HashMap.values_insert s.tasks.length (hnew id (by rw [hpc]; rfl))
      have hgrown : (s.spawnShell id).size + s.shell.length + s.control.length + s.commands.length =
          s.ahead := by
        simp only [spawnShell, size, hvalues, ahead, hpc, MainPc.ahead, List.length_cons]
        omega
      have hstanding : (s.spawnShell id).standing = s.standing + 27 := by
        simp only [spawnShell, standing, List.map_append, List.sum_append, List.map_cons, List.map_nil,
          List.sum_cons, List.sum_nil, Shell.labour_init]
        omega
      have hw := @created_within (s.spawnShell id) id _ purpose (.ok ()) hgrown.le
      have hprice := hw.price
      refine @labour_lt_of s _ 0 hw.ahead hw.control hw.notified ?_
      simp only [hpc, MainPc.price_create]
      omega
  | @childFailed id purpose error hpc =>
      have hw := @created_within s id s.ahead purpose (.error error) (Nat.le_add_right _ _)
      have hprice := hw.price
      refine @labour_lt_of s _ 0 hw.ahead hw.control hw.notified ?_
      simp only [hpc, MainPc.price_create]
      omega

/-- **Every step of a kernel without further input costs**, up to the events
the debugger returned. -/
theorem labour_lt (hshape : ∀ t ∈ s.tasks, t.Shape) (hnew : s.CreatesNew)
    (h : s.step services l = some s') (hl : l.settles = true) : s'.labour < s.labour + l.events := by
  have hfree : s'.labour < s.labour → s'.labour < s.labour + l.events :=
    fun hlt => Nat.lt_of_lt_of_le hlt (Nat.le_add_right _ _)
  cases l with
  | receive | receiveControl | command | notify => cases hl
  | next order => exact hfree (next_labour_lt h)
  | select b => exact hfree (select_labour_lt h hl)
  | childCreated result => exact hfree (childCreated_labour_lt hnew h)
  | stop j => exact hfree (jobStep_labour_lt h)
  | shell k l =>
      cases step_rule h with
      | @shell _ t t' _ hown hget hstep =>
          have hsum := sum_map_set Shell.labour t' hget
          have hlt := Shell.labour_lt (hshape t (List.mem_of_getElem? hget)) hstep hl
          refine @labour_lt_of_pc s _ 0 rfl rfl rfl rfl rfl (Nat.le_refl _) ?_
          simp only [standing]
          omega
  | emit =>
      cases step_rule h with
      | @emit e rest hout =>
          refine @labour_lt_of_pc s _ 0 rfl rfl rfl rfl rfl (Nat.le_refl _) ?_
          simp only [standing, hout, List.length_cons]
          omega
  | debugReturned result =>
      cases step_rule h with
      | @debugReturned a _ hpc =>
          obtain ⟨out, heq, hlen⟩ := debugReturned_eq (s := s) a result
          rw [heq]
          refine labour_lt_of_pc rfl rfl rfl rfl rfl (Nat.zero_le _) ?_
          simp only [standing, hpc, MainPc.price_debug, MainPc.price_select]
          omega

end Kernel

end Kernmini.Engine
