import Mana.Lib.Machine
import Mathlib.Algebra.Group.Nat.Defs

/-! Signal handlers. The kernel runs one of two wrappers, which enter the upper half and call the handler
of the application; the table `userSignalHandlers` says which one that is. -/

namespace Mana.Plugin
open Mana.Lib Option Function

/-- What `sa_handler` or `sa_sigaction` holds: `mana_signal_sa_handler_wrapper` and
`mana_signal_sa_sigaction_wrapper` are the last two. -/
inductive Handler where
  | dfl | ign
  | user (address : Nat)
  | saHandlerWrapper | saSigactionWrapper
  deriving DecidableEq, Repr

def Handler.isWrapper : Handler → Bool
  | .saHandlerWrapper | .saSigactionWrapper => true
  | _ => false

def Handler.isUser : Handler → Bool
  | .user _ => true
  | _ => false

/-- A `struct sigaction`; `siginfo` is the bit `SA_SIGINFO` of its flags. -/
structure Sigaction where
  handler : Handler
  siginfo : Bool
  flags : Nat
  mask : Nat
  deriving DecidableEq, Repr

def maxSignals : Nat := 64
def sigterm : Nat := 15

/-- The kernel and the C library below the plugin: the signals whose action cannot be read, or not be set, and
what `signal` adds to a handler. -/
structure Platform where
  ckptSignal : Nat
  refusesQuery : Nat → Bool
  refuses : Nat → Bool
  refuses_of_query : ∀ signum, refusesQuery signum = true → refuses signum = true
  signalFlags : Nat
  signalMask : Nat → Nat

def Platform.signalAction (p : Platform) (signum : Nat) (handler : Handler) : Sigaction :=
  ⟨handler, false, p.signalFlags, p.signalMask signum⟩

abbrev Kernel := Nat → Sigaction

def Platform.nextSigaction (p : Platform) (kernel : Kernel) (signum : Nat) :
    Option Sigaction → Option (Sigaction × Kernel)
  | none => if p.refusesQuery signum then none else some (kernel signum, kernel)
  | some act => if p.refuses signum then none else some (kernel signum, update kernel signum act)

def Platform.nextSignal (p : Platform) (kernel : Kernel) (signum : Nat) (handler : Handler) :
    Option (Handler × Kernel) :=
  (p.nextSigaction kernel signum (some (p.signalAction signum handler))).map fun (old, kernel) => (old.handler, kernel)

structure Signals where
  kernel : Kernel
  userSignalHandlers : Nat → Sigaction

def Signals.initializeSignalHandlers (p : Platform) (kernel : Kernel) : Signals where
  kernel := kernel
  userSignalHandlers signum :=
    match p.nextSigaction kernel signum none with
    | some (old, _) => if signum < maxSignals then old else ⟨.dfl, false, 0, 0⟩
    | none => ⟨.dfl, false, 0, 0⟩

def Platform.passes (p : Platform) (signum : Nat) : Bool := signum = p.ckptSignal || maxSignals ≤ signum

/-- `sigaction`: what it writes to `*oldAct`, if the caller gave one. -/
def Signals.sigaction (p : Platform) (s : Signals) (signum : Nat) (act : Option Sigaction) (oldAct : Bool) :
    Option (Option Sigaction × Signals) :=
  let direct := (p.nextSigaction s.kernel signum act).map fun (old, kernel) =>
    (if oldAct then some old else none, { s with kernel := kernel })
  let install (act : Sigaction) (wrapper : Handler) :=
    (p.nextSigaction s.kernel signum (some { act with handler := wrapper })).map fun (_, kernel) =>
      let table := update s.userSignalHandlers signum act
      (if oldAct then some (table signum) else none, { kernel := kernel, userSignalHandlers := table : Signals })
  if p.passes signum then direct
  else
    match act with
    | some act =>
      if act.siginfo then install act .saSigactionWrapper
      else if act.handler = .ign ∨ act.handler = .dfl then direct
      else install act .saHandlerWrapper
    | none => (p.nextSigaction s.kernel signum none).map fun (_, kernel) =>
        (if oldAct then some (s.userSignalHandlers signum) else none, { s with kernel := kernel })

/-- `signal`: the old handler; no result is `SIG_ERR`. -/
def Signals.signal (p : Platform) (s : Signals) (signum : Nat) (handler : Handler) : Option (Handler × Signals) :=
  if p.passes signum then
    (p.nextSignal s.kernel signum handler).map fun (old, kernel) => (old, { s with kernel := kernel })
  else
    let next := if handler = .ign ∨ handler = .dfl then handler else .saHandlerWrapper
    (p.nextSignal s.kernel signum next).map fun (old, kernel) =>
      (old, { kernel := kernel
              userSignalHandlers := update s.userSignalHandlers signum
                { s.userSignalHandlers signum with handler := handler } })

/-- What a signal does. A call of `SIG_IGN` or `SIG_DFL` is a jump to address 1 or 0; `nested` is a wrapper
that calls a wrapper, and so on without end. -/
inductive Delivery where
  | default | ignored
  | runs (address : Nat) (siginfo : Bool)
  | exits | crashes | nested
  deriving DecidableEq, Repr

def Handler.called (siginfo : Bool) : Handler → Delivery
  | .user address => .runs address siginfo
  | .dfl | .ign => .crashes
  | .saHandlerWrapper | .saSigactionWrapper => .nested

/-- A delivery, by the action that the kernel has and the one in the table. -/
def delivery (signum : Nat) (kernel table : Sigaction) : Delivery :=
  match kernel.handler with
  | .dfl => .default
  | .ign => .ignored
  | .user address => .runs address kernel.siginfo
  | .saHandlerWrapper => table.handler.called false
  | .saSigactionWrapper => if signum = sigterm then .exits else table.handler.called true

def Signals.deliver (s : Signals) (signum : Nat) : Delivery :=
  delivery signum (s.kernel signum) (s.userSignalHandlers signum)

def Sigaction.means (a : Sigaction) : Option Delivery :=
  match a.handler with
  | .dfl => some .default
  | .ign => some .ignored
  | .user address => some (.runs address a.siginfo)
  | .saHandlerWrapper | .saSigactionWrapper => none

inductive SignalCall where
  | sigaction (signum : Nat) (act : Option Sigaction) (oldAct : Bool)
  | signal (signum : Nat) (handler : Handler)
  deriving DecidableEq, Repr

namespace SignalCall

def signum : SignalCall → Nat
  | .sigaction signum _ _ | .signal signum _ => signum

def handler : SignalCall → Option Handler
  | .sigaction _ act _ => act.map (·.handler)
  | .signal _ handler => some handler

def action (p : Platform) : SignalCall → Option Sigaction
  | .sigaction _ act _ => act
  | .signal signum handler => some (p.signalAction signum handler)

end SignalCall

/-- The signals with the actions as the application set them last, and the handlers that calls reported. -/
structure SignalUse where
  signals : Signals
  installed : Nat → Sigaction
  seen : List Handler

namespace SignalUse

def call (p : Platform) (s : SignalUse) : SignalCall → Option ((Option Sigaction × Option Handler) × Signals)
  | .sigaction signum act oldAct =>
    (s.signals.sigaction p signum act oldAct).map fun (old, signals) => ((old, old.map (·.handler)), signals)
  | .signal signum handler => (s.signals.signal p signum handler).map fun (old, signals) => ((none, some old), signals)

/-- The application knows a wrapper only from a report. -/
def step (p : Platform) (s : SignalUse) (c : SignalCall) : Option SignalUse :=
  if p.passes c.signum = false ∧ ∀ handler ∈ c.handler, handler.isWrapper = true → handler ∈ s.seen then
    match s.call p c with
    | none => some s
    | some ((_, reported), signals) => some
      { signals := signals
        installed := (c.action p).elim s.installed (update s.installed c.signum)
        seen := reported.toList ++ s.seen }
  else none

def machine (p : Platform) : Machine SignalUse SignalCall where
  initial s := ∃ kernel : Kernel, (∀ signum, (kernel signum).handler.isWrapper = false) ∧
    s = ⟨.initializeSignalHandlers p kernel, kernel, []⟩
  step := step p

/-- A report of the call is what the application set last. -/
def Reports (p : Platform) (s : SignalUse) (c : SignalCall) : Prop :=
  ∀ old handler signals, s.call p c = some ((old, handler), signals) →
    (∀ action ∈ old, action = s.installed c.signum) ∧ ∀ h ∈ handler, h = (s.installed c.signum).handler

/-- A query would report what the application set last, and a signal does what that asks for. -/
def Faithful (p : Platform) (s : SignalUse) : Prop :=
  ∀ signum, p.passes signum = false →
    s.Reports p (.sigaction signum none true) ∧ (s.installed signum).means = some (s.signals.deliver signum)

def Safe (p : Platform) (s : SignalUse) : SignalCall → Prop
  | .sigaction _ none _ => True
  | .sigaction signum (some act) oldAct =>
    p.refuses signum = true ∨
    if act.siginfo then
      signum ≠ sigterm ∧ act.handler.isUser = true ∧ (oldAct = true → act = s.installed signum)
    else if act.handler = .ign ∨ act.handler = .dfl then act = s.installed signum
    else oldAct = true → act = s.installed signum
  | .signal signum handler =>
    p.refuses signum = true ∨
    (s.signals.kernel signum).handler.isWrapper = false ∧
      { s.installed signum with handler := handler } = p.signalAction signum handler

instance (p : Platform) (s : SignalUse) (c : SignalCall) : Decidable (s.Safe p c) :=
  match c with
  | .sigaction _ none _ => .isTrue trivial
  | .sigaction signum (some act) oldAct => inferInstanceAs (Decidable (p.refuses signum = true ∨
      if act.siginfo then
        signum ≠ sigterm ∧ act.handler.isUser = true ∧ (oldAct = true → act = s.installed signum)
      else if act.handler = .ign ∨ act.handler = .dfl then act = s.installed signum
      else oldAct = true → act = s.installed signum))
  | .signal signum handler => inferInstanceAs (Decidable (p.refuses signum = true ∨
      (s.signals.kernel signum).handler.isWrapper = false ∧
        { s.installed signum with handler := handler } = p.signalAction signum handler))

section Calls

variable {p : Platform} {s : SignalUse} {signum : Nat} {act : Sigaction} {handler : Handler} (oldAct : Bool)

theorem call_query (own : p.passes signum = false) : s.call p (.sigaction signum none oldAct) =
    if p.refusesQuery signum then none
    else some ((if oldAct then some (s.signals.userSignalHandlers signum) else none,
      if oldAct then some (s.signals.userSignalHandlers signum).handler else none), s.signals) := by
  cases oldAct <;> cases refused : p.refusesQuery signum <;>
    simp [call, Signals.sigaction, own, Platform.nextSigaction, refused]

theorem call_direct (own : p.passes signum = false) (accepted : p.refuses signum = false) (bare : act.siginfo = false)
    (isConst : act.handler = .ign ∨ act.handler = .dfl) : s.call p (.sigaction signum (some act) oldAct) =
    some ((if oldAct then some (s.signals.kernel signum) else none,
        if oldAct then some (s.signals.kernel signum).handler else none),
      { s.signals with kernel := update s.signals.kernel signum act }) := by
  cases oldAct <;> simp [call, Signals.sigaction, own, Platform.nextSigaction, accepted, bare, isConst]

def wrapperOf (act : Sigaction) : Handler := if act.siginfo then .saSigactionWrapper else .saHandlerWrapper

theorem call_install (own : p.passes signum = false) (accepted : p.refuses signum = false)
    (wraps : act.siginfo = true ∨ ¬ (act.handler = .ign ∨ act.handler = .dfl)) :
    s.call p (.sigaction signum (some act) oldAct) =
    some ((if oldAct then some act else none, if oldAct then some act.handler else none),
      { kernel := update s.signals.kernel signum { act with handler := wrapperOf act }
        userSignalHandlers := update s.signals.userSignalHandlers signum act }) := by
  cases info : act.siginfo with
  | true => cases oldAct <;> simp [call, Signals.sigaction, own, Platform.nextSigaction, accepted, info, wrapperOf]
  | false =>
    have notConst := wraps.resolve_left (by rw [info]; exact Bool.false_ne_true)
    cases oldAct <;>
      simp only [call, Signals.sigaction, own, Platform.nextSigaction, accepted, info, wrapperOf, notConst] <;> simp

theorem call_set_refused (own : p.passes signum = false) (refused : p.refuses signum = true) :
    s.call p (.sigaction signum (some act) oldAct) = none := by
  simp only [call, Signals.sigaction, own, Platform.nextSigaction, refused]
  simp

theorem call_signal_refused (own : p.passes signum = false) (refused : p.refuses signum = true) :
    s.call p (.signal signum handler) = none := by
  simp [call, Signals.signal, own, Platform.nextSignal, Platform.nextSigaction, refused]

theorem call_signal (own : p.passes signum = false) (accepted : p.refuses signum = false) :
    s.call p (.signal signum handler) =
    some ((none, some (s.signals.kernel signum).handler),
      { kernel := update s.signals.kernel signum (p.signalAction signum
          (if handler = .ign ∨ handler = .dfl then handler else .saHandlerWrapper))
        userSignalHandlers := update s.signals.userSignalHandlers signum
          { s.signals.userSignalHandlers signum with handler := handler } }) := by
  simp [call, Signals.signal, own, Platform.nextSignal, Platform.nextSigaction, accepted]

end Calls

def Right (p : Platform) (signum : Nat) (kernel table installed : Sigaction) : Prop :=
  (p.refusesQuery signum = true ∨ table = installed) ∧ installed.means = some (delivery signum kernel table)

section Steps

variable {p : Platform} {s s' : SignalUse} {signum : Nat}

theorem faithful_iff : s.Faithful p ↔ ∀ signum, p.passes signum = false →
    Right p signum (s.signals.kernel signum) (s.signals.userSignalHandlers signum) (s.installed signum) := by
  refine forall₂_congr fun signum own => and_congr_left' ?_
  rw [Reports, call_query _ own]
  cases p.refusesQuery signum with
  | true => simp
  | false =>
    simp only [Bool.false_eq_true, if_false, if_true, false_or, some.injEq, Prod.mk.injEq, mem_def]
    refine ⟨fun reports => (reports _ _ _ ⟨⟨rfl, rfl⟩, rfl⟩).1 _ rfl, ?_⟩
    rintro same _ _ _ ⟨⟨rfl, rfl⟩, rfl⟩
    simp [same, SignalCall.signum]

variable {kernel table act : Sigaction} {seen : List Handler} {handler : Handler} {c : SignalCall}
    {old : Option Sigaction} {signals : Signals}

/-- After a call only its signal has to be looked at. -/
theorem Faithful.update_iff (faithful : s.Faithful p) (own : p.passes signum = false) :
    Faithful p { signals := { kernel := update s.signals.kernel signum kernel
                              userSignalHandlers := update s.signals.userSignalHandlers signum table }
                 installed := update s.installed signum act
                 seen := seen } ↔ Right p signum kernel table act := by
  rw [faithful_iff] at faithful ⊢
  constructor
  · intro after
    simpa using after signum own
  · intro right other isOwn
    by_cases same : other = signum
    · subst same
      simpa using right
    · simpa [update_of_ne same] using faithful other isOwn

/-- What every run of safe calls keeps: the kernel has what was installed, or a wrapper for a handler. -/
structure Sound (p : Platform) (s : SignalUse) : Prop where
  faithful : s.Faithful p
  seen : ∀ handler ∈ s.seen, handler.isWrapper = false
  kernel : ∀ signum, p.passes signum = false →
    s.signals.kernel signum = s.installed signum ∨
      (s.signals.kernel signum).handler.isWrapper = true ∧ (s.installed signum).handler.isUser = true

theorem refusesQuery_of_accepted (accepted : p.refuses signum = false) : p.refusesQuery signum = false :=
  Bool.eq_false_iff.mpr fun refused => Bool.false_ne_true (accepted.symm.trans (p.refuses_of_query signum refused))

/-- A wrapped handler runs, except that no `SIGTERM` handler with `SA_SIGINFO` does. -/
theorem right_install (known : act.handler.isWrapper = false)
    (wraps : act.siginfo = true ∨ ¬ (act.handler = .ign ∨ act.handler = .dfl)) :
    Right p signum { act with handler := wrapperOf act } act act ↔
      (act.siginfo = true → signum ≠ sigterm ∧ act.handler.isUser = true) := by
  obtain ⟨handler, siginfo, flags, mask⟩ := act
  cases siginfo <;> cases handler <;>
    simp_all [Right, wrapperOf, delivery, Sigaction.means, Handler.called, Handler.isUser, Handler.isWrapper]
  all_goals by_cases term : signum = sigterm <;> simp [term]

theorem right_direct (isConst : act.handler = .ign ∨ act.handler = .dfl) :
    Right p signum act table act ↔ p.refusesQuery signum = true ∨ table = act := by
  refine and_iff_left ?_
  rcases isConst with isConst | isConst <;> rw [Sigaction.means, delivery, isConst]

theorem right_signal (known : handler.isWrapper = false) :
    Right p signum
      (p.signalAction signum (if handler = .ign ∨ handler = .dfl then handler else .saHandlerWrapper))
      { table with handler := handler } (p.signalAction signum handler) ↔
    p.refusesQuery signum = true ∨ { table with handler := handler } = p.signalAction signum handler := by
  refine and_iff_left ?_
  cases handler <;> first | rfl | cases known

theorem reports_iff {handler : Option Handler} (called : s.call p c = some ((old, handler), signals)) : s.Reports p c ↔
      (∀ action ∈ old, action = s.installed c.signum) ∧ ∀ h ∈ handler, h = (s.installed c.signum).handler := by
  rw [Reports, called]
  exact ⟨fun reports => reports _ _ _ rfl, by rintro right _ _ _ ⟨⟩; exact right⟩

theorem reports_of_refused (refused : s.call p c = none) : s.Reports p c := by
  rw [Reports, refused]
  exact nofun

theorem Sound.not_wrapper (sound : s.Sound p) (own : p.passes signum = false) :
    (s.installed signum).handler.isWrapper = false := by
  have means := (sound.faithful signum own).2
  unfold Sigaction.means at means
  split at means <;> first | cases means | simp_all [Handler.isWrapper]

theorem Sound.table_eq (sound : s.Sound p) (own : p.passes signum = false) (accepted : p.refuses signum = false) :
    s.signals.userSignalHandlers signum = s.installed signum := by
  have right := (faithful_iff.mp sound.faithful signum own).1
  rw [refusesQuery_of_accepted accepted] at right
  exact right.resolve_left Bool.false_ne_true

theorem Sound.handler_eq_iff (sound : s.Sound p) (own : p.passes signum = false) :
    (s.signals.kernel signum).handler = (s.installed signum).handler ↔
      (s.signals.kernel signum).handler.isWrapper = false := by
  refine ⟨fun same => same ▸ sound.not_wrapper own, fun bare => ?_⟩
  rcases sound.kernel signum own with same | ⟨wrapper, -⟩
  · rw [same]
  · exact absurd (bare.symm.trans wrapper) Bool.false_ne_true

/-- The conclusion about a step: it reports and keeps what it should exactly if it is safe, and a safe one leaves
the kernel in order. -/
structure Kept (p : Platform) (s : SignalUse) (c : SignalCall) (s' : SignalUse) : Prop where
  iff_safe : s.Reports p c ∧ s'.Faithful p ↔ s.Safe p c
  kernel : s.Safe p c → ∀ signum, p.passes signum = false →
    s'.signals.kernel signum = s'.installed signum ∨
      (s'.signals.kernel signum).handler.isWrapper = true ∧ (s'.installed signum).handler.isUser = true

theorem Kept.of_update {handler : Option Handler} (sound : s.Sound p) (own : p.passes c.signum = false)
    (called : s.call p c = some ((old, handler), signals))
    (isSignals : signals = ⟨update s.signals.kernel c.signum kernel,
      update s.signals.userSignalHandlers c.signum table⟩)
    (iff_safe : ((∀ action ∈ old, action = s.installed c.signum) ∧ ∀ h ∈ handler, h = (s.installed c.signum).handler) ∧
      Right p c.signum kernel table act ↔ s.Safe p c)
    (isKernel : s.Safe p c → kernel = act ∨ kernel.handler.isWrapper = true ∧ act.handler.isUser = true) :
    s.Kept p c ⟨signals, update s.installed c.signum act, seen⟩ where
  iff_safe := by
    subst isSignals
    rw [reports_iff called, sound.faithful.update_iff own, iff_safe]
  kernel := by
    subst isSignals
    intro safe other isOwn
    by_cases same : other = c.signum
    · subst same
      simpa using isKernel safe
    · simpa [update_of_ne same] using sound.kernel other isOwn

theorem Sound.query (sound : s.Sound p) (own : p.passes signum = false) (oldAct : Bool)
    (taken : s.step p (.sigaction signum none oldAct) = some s') : s.Kept p (.sigaction signum none oldAct) s' := by
  obtain ⟨-, taken⟩ := ite_none_right_eq_some.mp taken
  rw [call_query _ own] at taken
  have right := (sound.faithful signum own).1
  rw [Reports, call_query _ own] at right
  cases refused : p.refusesQuery signum with
  | true =>
    rw [refused] at taken
    cases taken
    exact ⟨iff_of_true ⟨reports_of_refused (by rw [call_query _ own, refused]; rfl), sound.faithful⟩ trivial,
      fun _ => sound.kernel⟩
  | false =>
    rw [refused] at taken right
    cases taken
    obtain ⟨isAction, isHandler⟩ := right _ _ _ rfl
    refine ⟨iff_of_true ⟨?_, sound.faithful⟩ trivial, fun _ => sound.kernel⟩
    refine (reports_iff (by rw [call_query _ own, refused]; rfl)).mpr ?_
    cases oldAct with
    | false => exact ⟨nofun, nofun⟩
    | true => exact ⟨isAction, isHandler⟩

theorem Sound.refused (sound : s.Sound p) (safe : s.Safe p c) (refused : s.call p c = none)
    (taken : s.step p c = some s') : s.Kept p c s' := by
  obtain ⟨-, taken⟩ := ite_none_right_eq_some.mp taken
  rw [refused] at taken
  cases taken
  exact ⟨iff_of_true ⟨reports_of_refused refused, sound.faithful⟩ safe, fun _ => sound.kernel⟩

theorem isUser_of (known : handler.isWrapper = false) (notConst : ¬ (handler = .ign ∨ handler = .dfl)) :
    handler.isUser = true := by
  cases handler <;> simp_all [Handler.isWrapper, Handler.isUser]

/-- The table is not written, so that it is right only if the action was there before. -/
theorem Sound.direct (oldAct : Bool) (sound : s.Sound p) (own : p.passes signum = false)
    (accepted : p.refuses signum = false) (bare : act.siginfo = false)
    (isConst : act.handler = .ign ∨ act.handler = .dfl)
    (taken : s.step p (.sigaction signum (some act) oldAct) = some s') :
    s.Kept p (.sigaction signum (some act) oldAct) s' := by
  obtain ⟨-, taken⟩ := ite_none_right_eq_some.mp taken
  have called := @call_direct p s signum act oldAct own accepted bare isConst
  rw [called] at taken
  cases taken
  refine .of_update sound own called (congrArg (Signals.mk _) (update_eq_self signum _).symm) ?_
    fun _ => .inl rfl
  have safe : s.Safe p (.sigaction signum (some act) oldAct) ↔ act = s.installed signum := by
    simp [Safe, accepted, bare, isConst]
  have table : p.refusesQuery signum = true ∨ s.signals.userSignalHandlers signum = act ↔
      act = s.installed signum := by
    rw [refusesQuery_of_accepted accepted, sound.table_eq own accepted, Bool.false_eq_true, false_or]
    exact eq_comm
  rw [safe, SignalCall.signum, right_direct isConst, table]
  refine and_iff_right_of_imp fun same => ?_
  have kernel : s.signals.kernel signum = s.installed signum := by
    refine (sound.kernel signum own).resolve_right fun ⟨_, isUser⟩ => ?_
    rw [← same] at isUser
    rcases isConst with isConst | isConst <;> rw [isConst] at isUser <;> cases isUser
  cases oldAct <;> simp [kernel]

theorem Sound.install (oldAct : Bool) (sound : s.Sound p) (own : p.passes signum = false)
    (accepted : p.refuses signum = false) (known : act.handler.isWrapper = false)
    (wraps : act.siginfo = true ∨ ¬ (act.handler = .ign ∨ act.handler = .dfl))
    (taken : s.step p (.sigaction signum (some act) oldAct) = some s') :
    s.Kept p (.sigaction signum (some act) oldAct) s' := by
  obtain ⟨-, taken⟩ := ite_none_right_eq_some.mp taken
  have called := @call_install p s signum act oldAct own accepted wraps
  rw [called] at taken
  cases taken
  have safe : s.Safe p (.sigaction signum (some act) oldAct) ↔
      (oldAct = true → act = s.installed signum) ∧
        (act.siginfo = true → signum ≠ sigterm ∧ act.handler.isUser = true) := by
    cases info : act.siginfo with
    | true => simp [Safe, accepted, info, and_comm, and_assoc]
    | false =>
      have notConst := wraps.resolve_left (by rw [info]; exact Bool.false_ne_true)
      simp only [Safe, accepted, info, notConst]
      simp
  refine .of_update sound own called rfl ?_ fun isSafe => .inr ⟨?_, ?_⟩
  · rw [safe, SignalCall.signum, right_install known wraps]
    refine and_congr_left' ?_
    cases oldAct with
    | false => simp
    | true =>
      simp only [if_true, mem_some_iff, forall_eq', forall_const]
      exact and_iff_left_of_imp (congrArg _)
  · unfold wrapperOf
    split <;> rfl
  · rcases wraps with info | notConst
    · exact ((safe.mp isSafe).2 info).2
    · exact isUser_of known notConst

theorem Sound.signal (sound : s.Sound p) (own : p.passes signum = false) (known : handler.isWrapper = false)
    (taken : s.step p (.signal signum handler) = some s') : s.Kept p (.signal signum handler) s' := by
  cases accepted : p.refuses signum with
  | true => exact sound.refused (.inl accepted) (call_signal_refused own accepted) taken
  | false =>
    obtain ⟨-, taken⟩ := ite_none_right_eq_some.mp taken
    have called := @call_signal p s signum handler own accepted
    rw [called] at taken
    cases taken
    have safe : s.Safe p (.signal signum handler) ↔ (s.signals.kernel signum).handler.isWrapper = false ∧
        { s.installed signum with handler := handler } = p.signalAction signum handler := by
      simp only [Safe, accepted, Bool.false_eq_true, false_or]
    refine .of_update sound own called rfl ?_ fun _ => ?_
    · rw [safe, SignalCall.signum, right_signal known, refusesQuery_of_accepted accepted, sound.table_eq own accepted,
        ← sound.handler_eq_iff own]
      simp
    · by_cases isConst : handler = .ign ∨ handler = .dfl
      · rw [if_pos isConst]
        exact .inl rfl
      · rw [if_neg isConst]
        exact .inr ⟨rfl, isUser_of known isConst⟩

theorem Sound.step (sound : s.Sound p) (taken : s.step p c = some s') : s.Kept p c s' := by
  have guard := (ite_none_right_eq_some.mp taken).1
  have known (handler : Handler) (isHandler : c.handler = some handler) : handler.isWrapper = false := by
    by_contra wrapper
    exact wrapper (sound.seen handler (guard.2 handler isHandler (eq_true_of_ne_false wrapper)))
  cases c with
  | sigaction signum act oldAct =>
    cases act with
    | none => exact sound.query guard.1 oldAct taken
    | some act =>
      cases accepted : p.refuses signum with
      | true => exact sound.refused (.inl accepted) (call_set_refused oldAct guard.1 accepted) taken
      | false =>
        by_cases direct : act.siginfo = false ∧ (act.handler = .ign ∨ act.handler = .dfl)
        · exact sound.direct oldAct guard.1 accepted direct.1 direct.2 taken
        · refine sound.install oldAct guard.1 accepted (known _ rfl) ?_ taken
          rcases Bool.eq_false_or_eq_true act.siginfo with info | bare
          · exact .inl info
          · exact .inr fun isConst => direct ⟨bare, isConst⟩
  | signal signum handler => exact sound.signal guard.1 (known _ rfl) taken

theorem Sound.safe_step (sound : s.Sound p) (safe : s.Safe p c) (taken : s.step p c = some s') : s'.Sound p := by
  have kept := sound.step taken
  obtain ⟨reports, faithful⟩ := kept.iff_safe.mpr safe
  refine ⟨faithful, ?_, kept.kernel safe⟩
  obtain ⟨⟨own, -⟩, taken⟩ := ite_none_right_eq_some.mp taken
  cases called : s.call p c with
  | none =>
    rw [called] at taken
    cases taken
    exact sound.seen
  | some result =>
    obtain ⟨⟨old, reported⟩, signals⟩ := result
    rw [called] at taken
    cases taken
    intro handler member
    rcases List.mem_append.mp member with new | before
    · rw [((reports_iff called).mp reports).2 handler (mem_toList.mp new)]
      exact sound.not_wrapper own
    · exact sound.seen handler before

theorem sound_initial {kernel : Kernel} (bare : ∀ signum, (kernel signum).handler.isWrapper = false) :
    Sound p ⟨.initializeSignalHandlers p kernel, kernel, []⟩ := by
  refine ⟨faithful_iff.mpr fun signum own => ⟨?_, ?_⟩, nofun, fun _ _ => .inl rfl⟩
  · have small : signum < maxSignals := by
      by_contra large
      simp only [Platform.passes, Bool.or_eq_false_iff, decide_eq_false_iff_not] at own
      exact own.2 (Nat.le_of_not_lt large)
    cases refused : p.refusesQuery signum with
    | true => exact .inl rfl
    | false => exact .inr (by simp [Signals.initializeSignalHandlers, Platform.nextSigaction, refused, small])
  · have notWrapper := bare signum
    simp only [Signals.initializeSignalHandlers, Sigaction.means, delivery]
    cases isHandler : (kernel signum).handler <;> simp_all [Handler.isWrapper]

theorem sound_reachable (reached : Reachable ((machine p).restrict fun s c => s.Safe p c) s) : s.Sound p := by
  refine reached.invariant (fun s => s.Sound p) ?_ fun s c s' _ sound taken => ?_
  · rintro _ ⟨kernel, bare, rfl⟩
    exact sound_initial bare
  · obtain ⟨safe, taken⟩ := restrict_step.mp taken
    exact sound.safe_step safe taken

end Steps

end SignalUse

/-- Signal handlers under the plugin. In every run of safe calls a signal does what the application asked for last,
and a query reports that; and in each state of such a run, a call reports the old action and keeps this exactly if it
is safe. -/
theorem signals_virtualized_iff_safe {p : Platform} {s : SignalUse}
    (reached : Reachable ((SignalUse.machine p).restrict fun s c => s.Safe p c) s) :
    s.Faithful p ∧ ∀ c s', s.step p c = some s' → (s.Reports p c ∧ s'.Faithful p ↔ s.Safe p c) :=
  have sound := SignalUse.sound_reachable reached
  ⟨sound.faithful, fun _ _ taken => (sound.step taken).iff_safe⟩

/-- A platform on which `SIGUSR2` asks for a checkpoint; `SIGKILL` and `SIGSTOP` cannot be caught. -/
def linux : Platform where
  ckptSignal := 12
  refusesQuery signum := signum = 0
  refuses signum := signum = 0 || signum = 9 || signum = 19
  refuses_of_query signum refused := by simp [of_decide_eq_true refused]
  signalFlags := 2 ^ 28
  signalMask signum := 2 ^ (signum - 1)

def SignalUse.fresh : SignalUse := ⟨.initializeSignalHandlers linux fun _ => ⟨.dfl, false, 0, 0⟩, fun _ => ⟨.dfl, false, 0, 0⟩, []⟩

theorem SignalUse.initial_fresh : (SignalUse.machine linux).initial SignalUse.fresh := ⟨_, fun _ => rfl, rfl⟩

def SignalUse.caught : Option SignalUse :=
  ((SignalUse.machine linux).restrict fun s c => s.Safe linux c).run SignalUse.fresh
    [.sigaction 10 (some ⟨.user 1, true, 0, 0⟩) false]

theorem signals_virtualized_iff_safe_usr1 :
    ∃ s, SignalUse.caught = some s ∧ s.Faithful linux ∧ s.signals.deliver 10 = .runs 1 true := by
  have ran : SignalUse.caught.isSome = true := by decide
  obtain ⟨s, isCaught⟩ := isSome_iff_exists.mp ran
  have delivered : SignalUse.caught.map (·.signals.deliver 10) = some (.runs 1 true) := by decide
  rw [isCaught] at delivered
  have reached : Reachable ((SignalUse.machine linux).restrict fun s c => s.Safe linux c) s :=
    .run (.start SignalUse.initial_fresh) isCaught
  exact ⟨s, isCaught, (signals_virtualized_iff_safe reached).1, some.inj delivered⟩

/-- The first handler of `SIGUSR1` is reported as the action before it. And of two calls of `signal`, the second
one returns a wrapper; put back, the wrapper calls itself. -/
theorem restored_handler_nests :
    (SignalUse.fresh.call linux (.sigaction 10 (some ⟨.user 1, false, 0, 0⟩) true)).map (·.1.1) =
        some (some ⟨.user 1, false, 0, 0⟩) ∧
      SignalUse.fresh.installed 10 = ⟨.dfl, false, 0, 0⟩ ∧
      ((SignalUse.machine linux).run SignalUse.fresh [.signal 10 (.user 1), .signal 10 (.user 2)]).map (·.seen) =
        some [.saHandlerWrapper, .dfl] ∧
      ((SignalUse.machine linux).run SignalUse.fresh
        [.signal 10 (.user 1), .signal 10 (.user 2), .signal 10 .saHandlerWrapper]).map (·.signals.deliver 10) =
        some .nested := by
  decide

end Mana.Plugin
