/-
  ZohoOs.Smp.Startup — starting the other processors (smp.c, trampoline.asm).

  `smp_init` starts one core at a time.  It leaves the APIC id and the stack
  for the core in two words behind the trampoline, resets the core with an
  INIT, starts it with one or two SIPIs, and waits until `ap_started_count` has
  changed or a timeout is over.  The core reads the two words, one after the
  other, some time later; the interrupts are messages that may take as long as
  they like.

  Main results:
    * `ap_startup_own` — as long as no wait ends by its timeout, every core that
      has read its words has the stack and the APIC id that were meant for it,
      is registered once, and has been started when `smp_init` returns;
    * `ap_startup_late` — after a timeout two cores may run on one stack;
    * `madt_cores_started` — the cores that run are those of the MADT.

  The invariant is `InTurn`: the ids before `i` are up, those after it asleep,
  and the words behind the trampoline belong to the one in between from before
  its INIT until it is counted.
-/
import ZohoOs.Lib.Transition
import ZohoOs.Acpi.Tables
import ZohoOs.Lib.Word
import Mathlib.Logic.Function.Basic
import Mathlib.Data.List.Nodup

namespace ZohoOs

open ZohoOs.Lib

/-! ## §1. The parties. -/

/-- The interprocessor interrupts of `smp_init`. -/
inductive Ipi where
  | init
  /-- A SIPI, with vector 0x08. -/
  | startup
  deriving DecidableEq

/-- How far a core is. -/
inductive ApCore where
  | off
  /-- After an INIT, until a SIPI comes. -/
  | waitSipi
  | trampoline
  /-- The trampoline has loaded `rsp`. -/
  | stackLoaded (rsp : Word)
  /-- `ap_main`, with its stack and its argument. -/
  | apMain (rsp : Word) (apicId : BitVec 8)
  /-- `cpu_init` has returned. -/
  | registered (rsp : Word) (apicId : BitVec 8)
  /-- `ap_started_count` is incremented. -/
  | started (rsp : Word) (apicId : BitVec 8)
  deriving DecidableEq

/-- Where `smp_init` is in the turn of the core `apicId`; `count` is
    `current_count`. -/
inductive BspPc where
  | next
  | allocate (apicId : BitVec 8)
  | sample (apicId : BitVec 8)
  | sendInit (apicId : BitVec 8) (count : Nat)
  | sendStartup (apicId : BitVec 8) (count : Nat)
  | check (apicId : BitVec 8) (count : Nat)
  | wait (apicId : BitVec 8) (count timeout : Nat)
  | done
  deriving DecidableEq

structure Startup where
  bsp : BspPc
  /-- The loop variable of `smp_init`. -/
  i : Nat
  trampolineApicId : Word
  trampolineStackAddr : Word
  apStartedCount : Nat
  cores : BitVec 8 → ApCore
  /-- The interrupts under way, oldest first. -/
  ipis : BitVec 8 → List Ipi
  /-- The ids in `cpus`, without that of the boot processor. -/
  cpus : List (BitVec 8)
  /-- Ghost: the top of the stack allocated for each core. -/
  stackTop : BitVec 8 → Word

/-- What may happen next: `smp_init` goes on (`stack` is what `kmalloc`
    returns), an interrupt arrives, or a core goes on. -/
inductive StartupAct where
  | bsp (stack : Word)
  | deliver (apicId : BitVec 8)
  | core (apicId : BitVec 8)

/-- What an interrupt does to a core: a SIPI is ignored unless the core waits
    for one. -/
def ApCore.receive : Ipi → ApCore → ApCore
  | .init, _ => .waitSipi
  | .startup, .waitSipi => .trampoline
  | .startup, c => c

namespace Startup

def send (s : Startup) (a : BitVec 8) (m : Ipi) : Startup :=
  { s with ipis := Function.update s.ipis a (s.ipis a ++ [m]) }

def setCore (s : Startup) (a : BitVec 8) (c : ApCore) : Startup :=
  { s with cores := Function.update s.cores a c }

/-- The next statement of `smp_init`, for the ids ACPI found. -/
def bspStep (cpuIds : List (BitVec 8)) (bspId : BitVec 8) (s : Startup) (stack : Word) :
    Option Startup :=
  match s.bsp with
  | .next =>
      match cpuIds[s.i]? with
      | none => some { s with bsp := .done }
      | some a =>
          if a = bspId then some { s with i := s.i + 1 }
          else some { s with trampolineApicId := a.setWidth 64, bsp := .allocate a }
  | .allocate a =>
      some { s with
        trampolineStackAddr := stack + 4096 * 4
        stackTop := Function.update s.stackTop a (stack + 4096 * 4)
        bsp := .sample a }
  | .sample a => some { s with bsp := .sendInit a s.apStartedCount }
  | .sendInit a count => some { s.send a .init with bsp := .sendStartup a count }
  | .sendStartup a count => some { s.send a .startup with bsp := .check a count }
  | .check a count =>
      -- the second SIPI
      if s.apStartedCount = count then some { s.send a .startup with bsp := .wait a count 100000 }
      else some { s with bsp := .wait a count 100000 }
  | .wait a count timeout =>
      if s.apStartedCount = count ∧ timeout ≠ 0 then
        some { s with bsp := .wait a count (timeout - 1) }
      else some { s with bsp := .next, i := s.i + 1 }
  | .done => none

/-- The next thing a core does: the trampoline loads the stack and then the id,
    and `ap_main` registers the core and counts it. -/
def coreStep (s : Startup) (a : BitVec 8) : Option Startup :=
  match s.cores a with
  | .trampoline => some (s.setCore a (.stackLoaded s.trampolineStackAddr))
  | .stackLoaded rsp => some (s.setCore a (.apMain rsp (s.trampolineApicId.setWidth 8)))
  | .apMain rsp apicId =>
      -- `cpu_init` takes id 0 for the boot processor
      some { s.setCore a (.registered rsp apicId) with
        cpus := if apicId = 0 then s.cpus else s.cpus ++ [apicId] }
  | .registered rsp apicId =>
      some { s.setCore a (.started rsp apicId) with apStartedCount := s.apStartedCount + 1 }
  | _ => none

def step (cpuIds : List (BitVec 8)) (bspId : BitVec 8) (s : Startup) : StartupAct → Option Startup
  | .bsp stack => s.bspStep cpuIds bspId stack
  | .deliver a =>
      match s.ipis a with
      | [] => none
      | m :: rest =>
          some { s.setCore a ((s.cores a).receive m) with ipis := Function.update s.ipis a rest }
  | .core a => s.coreStep a

/-- **The protocol**, as a step relation. -/
def Steps (cpuIds : List (BitVec 8)) (bspId : BitVec 8) (s : Startup) (act : StartupAct)
    (s' : Startup) : Prop :=
  s.step cpuIds bspId act = some s'

/-- Before `smp_init`: the other cores are off. -/
structure Start (s : Startup) : Prop where
  bsp : s.bsp = .next
  i : s.i = 0
  cores : ∀ a, s.cores a = .off
  ipis : ∀ a, s.ipis a = []
  cpus : s.cpus = []

/-- The wait of `smp_init` ends without a core having started. -/
def TimesOut (s : Startup) : StartupAct → Bool
  | .bsp _ =>
      match s.bsp with
      | .wait _ count timeout => timeout = 0 ∧ s.apStartedCount = count
      | _ => false
  | _ => false

end Startup

/-! ## §2. The property. -/

/-- What core `a` has read is what was meant for it. -/
def ApCore.Owns (a : BitVec 8) (top : Word) : ApCore → Prop
  | .stackLoaded rsp => rsp = top
  | .apMain rsp apicId => rsp = top ∧ apicId = a
  | .registered rsp apicId => rsp = top ∧ apicId = a
  | .started rsp apicId => rsp = top ∧ apicId = a
  | _ => True

/-- `cpu_init` has returned. -/
def ApCore.pastInit : ApCore → Bool
  | .registered _ _ => true
  | .started _ _ => true
  | _ => false

/-- Between the INIT and `ap_started_count`. -/
def ApCore.starting : ApCore → Bool
  | .off => false
  | .started _ _ => false
  | _ => true

/-- **The cores are apart**: each has its own words, no two are starting at
    once, and those that have called `cpu_init` are registered, once, but for a
    core with id 0. -/
structure Startup.Apart (s : Startup) : Prop where
  owns : ∀ a, (s.cores a).Owns a (s.stackTop a)
  alone : ∀ a b, (s.cores a).starting → (s.cores b).starting → a = b
  registered : ∀ a, s.cpus.count a = if (s.cores a).pastInit ∧ a ≠ 0 then 1 else 0

/-! ## §3. The invariant. -/

/-- The core whose turn it is. -/
def BspPc.turn : BspPc → Option (BitVec 8)
  | .allocate a => some a
  | .sample a => some a
  | .sendInit a _ => some a
  | .sendStartup a _ => some a
  | .check a _ => some a
  | .wait a _ _ => some a
  | _ => none

/-- SIPIs only. -/
def Late (l : List Ipi) : Prop := ∀ m ∈ l, m = .startup

namespace Startup

/-- Core `a` has not been woken. -/
def Asleep (s : Startup) (a : BitVec 8) : Prop := s.cores a = .off ∧ s.ipis a = []

/-- Core `a` runs, and no INIT is on its way to it. -/
def Up (s : Startup) (a : BitVec 8) : Prop :=
  s.cores a = .started (s.stackTop a) a ∧ Late (s.ipis a)

/-- Core `a` is on its way from the INIT to `ap_started_count`. -/
inductive Booting (s : Startup) (a : BitVec 8) : Prop
  | reset (l : List Ipi) (hcore : s.cores a = .off) (hipis : s.ipis a = .init :: l) (hlate : Late l)
  | waitSipi (hcore : s.cores a = .waitSipi) (hlate : Late (s.ipis a))
  | trampoline (hcore : s.cores a = .trampoline) (hlate : Late (s.ipis a))
  | stackLoaded (hcore : s.cores a = .stackLoaded (s.stackTop a)) (hlate : Late (s.ipis a))
  | apMain (hcore : s.cores a = .apMain (s.stackTop a) a) (hlate : Late (s.ipis a))
  | registered (hcore : s.cores a = .registered (s.stackTop a) a) (hlate : Late (s.ipis a))

/-- The words behind the trampoline are those of core `a`. -/
def Words (s : Startup) (a : BitVec 8) : Prop :=
  s.trampolineApicId = a.setWidth 64 ∧ s.trampolineStackAddr = s.stackTop a

/-- Core `a` has been woken, and is counted when it is up. -/
def Woken (s : Startup) (a : BitVec 8) (count : Nat) : Prop :=
  s.Words a ∧ (s.Booting a ∧ s.apStartedCount = count ∨ s.Up a)

/-- The turn of a core: its words are there before it is woken, and stay until
    it is counted. -/
def Turn (s : Startup) : BspPc → Prop
  | .allocate a => s.Asleep a ∧ s.trampolineApicId = a.setWidth 64
  | .sample a => s.Asleep a ∧ s.Words a
  | .sendInit a count => s.Asleep a ∧ s.Words a ∧ s.apStartedCount = count
  | .sendStartup a count => s.Woken a count
  | .check a count => s.Woken a count
  | .wait a count _ => s.Woken a count
  | _ => True

/-- **The invariant**: the cores before the turn are up, those after it asleep. -/
structure InTurn (cpuIds : List (BitVec 8)) (bspId : BitVec 8) (s : Startup) : Prop where
  turn : s.Turn s.bsp
  now : ∀ a, s.bsp.turn = some a → cpuIds[s.i]? = some a ∧ a ≠ bspId
  up : ∀ a ∈ cpuIds.take s.i, a ≠ bspId → s.Up a
  asleep : ∀ a, a ∉ cpuIds.take s.i ∨ a = bspId → s.bsp.turn ≠ some a → s.Asleep a
  ended : s.bsp = .done → cpuIds.length ≤ s.i
  registered : ∀ a, s.cpus.count a = if (s.cores a).pastInit ∧ a ≠ 0 then 1 else 0

variable {cpuIds : List (BitVec 8)} {bspId : BitVec 8} {s s' : Startup}

theorem InTurn.start (h : s.Start) : s.InTurn cpuIds bspId where
  turn := by rw [h.bsp]; exact trivial
  now := by simp [h.bsp, BspPc.turn]
  up := by simp [h.i]
  asleep a _ _ := ⟨h.cores a, h.ipis a⟩
  ended := by simp [h.bsp]
  registered a := by simp [h.cpus, h.cores, ApCore.pastInit]

/-- The core that has its turn is asleep or has been woken. -/
theorem Turn.cases {pc : BspPc} {a : BitVec 8} (h : s.Turn pc) (ha : pc.turn = some a) :
    s.Asleep a ∨ ∃ count, s.Woken a count := by
  cases pc with
  | next => exact absurd ha (by simp [BspPc.turn])
  | done => exact absurd ha (by simp [BspPc.turn])
  | allocate b =>
    obtain rfl := Option.some.inj ha
    exact .inl h.1
  | sample b =>
    obtain rfl := Option.some.inj ha
    exact .inl h.1
  | sendInit b count =>
    obtain rfl := Option.some.inj ha
    exact .inl h.1
  | sendStartup b count =>
    obtain rfl := Option.some.inj ha
    exact .inr ⟨count, h⟩
  | check b count =>
    obtain rfl := Option.some.inj ha
    exact .inr ⟨count, h⟩
  | wait b count timeout =>
    obtain rfl := Option.some.inj ha
    exact .inr ⟨count, h⟩

/-- A core that is not asleep is up or has its turn. -/
theorem InTurn.cases (h : s.InTurn cpuIds bspId) {a : BitVec 8} (ha : ¬ s.Asleep a) :
    s.Up a ∨ s.bsp.turn = some a ∧ s.Words a ∧ s.Booting a := by
  by_cases hturn : s.bsp.turn = some a
  · rcases h.turn.cases hturn with hasleep | ⟨count, hwords, hboot | hup⟩
    · exact absurd hasleep ha
    · exact .inr ⟨hturn, hwords, hboot.1⟩
    · exact .inl hup
  · refine .inl (h.up a ?_ ?_)
    · by_contra hn
      exact ha (h.asleep a (.inl hn) hturn)
    · rintro rfl
      exact ha (h.asleep a (.inr rfl) hturn)

theorem Booting.late {a : BitVec 8} (h : s.Booting a) (hc : s.cores a ≠ .off) :
    Late (s.ipis a) := by
  cases h with
  | reset l hcore hipis hlate => exact absurd hcore hc
  | waitSipi hcore hlate => exact hlate
  | trampoline hcore hlate => exact hlate
  | stackLoaded hcore hlate => exact hlate
  | apMain hcore hlate => exact hlate
  | registered hcore hlate => exact hlate

theorem Booting.owns {a : BitVec 8} (h : s.Booting a) : (s.cores a).Owns a (s.stackTop a) := by
  cases h with
  | reset l hcore hipis hlate => simp [hcore, ApCore.Owns]
  | waitSipi hcore hlate => simp [hcore, ApCore.Owns]
  | trampoline hcore hlate => simp [hcore, ApCore.Owns]
  | stackLoaded hcore hlate => simp [hcore, ApCore.Owns]
  | apMain hcore hlate => simp [hcore, ApCore.Owns]
  | registered hcore hlate => simp [hcore, ApCore.Owns]

/-- Past its INIT, a core that stays where it is stays on its way. -/
theorem Booting.keep {a : BitVec 8} (h : s.Booting a) (hoff : s.cores a ≠ .off)
    (hcores : s'.cores a = s.cores a) (htop : s'.stackTop a = s.stackTop a)
    (hlate' : Late (s'.ipis a)) : s'.Booting a := by
  cases h with
  | reset l hcore hipis hlate => exact absurd hcore hoff
  | waitSipi hcore hlate => exact .waitSipi (hcores.trans hcore) hlate'
  | trampoline hcore hlate => exact .trampoline (hcores.trans hcore) hlate'
  | stackLoaded hcore hlate => exact .stackLoaded (by rw [hcores, hcore, htop]) hlate'
  | apMain hcore hlate => exact .apMain (by rw [hcores, hcore, htop]) hlate'
  | registered hcore hlate => exact .registered (by rw [hcores, hcore, htop]) hlate'

/-- Before it, the INIT is the first interrupt under way. -/
theorem Booting.cases_off {a : BitVec 8} (h : s.Booting a) :
    (∃ l, s.cores a = .off ∧ s.ipis a = .init :: l ∧ Late l) ∨ s.cores a ≠ .off := by
  cases h with
  | reset l hcore hipis hlate => exact .inl ⟨l, hcore, hipis, hlate⟩
  | waitSipi hcore hlate => simp [hcore]
  | trampoline hcore hlate => simp [hcore]
  | stackLoaded hcore hlate => simp [hcore]
  | apMain hcore hlate => simp [hcore]
  | registered hcore hlate => simp [hcore]

theorem Booting.congr {a : BitVec 8} (h : s.Booting a) (hcores : s'.cores a = s.cores a)
    (hq : s'.ipis a = s.ipis a) (htop : s'.stackTop a = s.stackTop a) : s'.Booting a := by
  rcases h.cases_off with ⟨l, hoff, hipis, hlate⟩ | hoff
  · exact .reset l (hcores.trans hoff) (hq.trans hipis) hlate
  · exact h.keep hoff hcores htop (hq ▸ h.late hoff)

/-- The statement `smp_init` is at does not matter for a core. -/
theorem Woken.setBsp {a : BitVec 8} {count : Nat} {pc : BspPc} (h : s.Woken a count) :
    Startup.Woken { s with bsp := pc } a count :=
  ⟨h.1, h.2.imp_left fun hb => ⟨hb.1.congr rfl rfl rfl, hb.2⟩⟩

/-- Two states that differ at core `a` only, which is not asleep. -/
structure OnlyCore (s s' : Startup) (a : BitVec 8) : Prop where
  bsp : s'.bsp = s.bsp
  i : s'.i = s.i
  apicId : s'.trampolineApicId = s.trampolineApicId
  stackAddr : s'.trampolineStackAddr = s.trampolineStackAddr
  stackTop : s'.stackTop = s.stackTop
  cores : ∀ b ≠ a, s'.cores b = s.cores b
  ipis : ∀ b ≠ a, s'.ipis b = s.ipis b

/-- What a step of core `a` may change: a core that is up stays up, and one on
    its way is counted when it is up. -/
structure Advance (s s' : Startup) (a : BitVec 8) : Prop where
  awake : ¬ s.Asleep a
  up : s.Up a → s'.Up a ∧ s'.apStartedCount = s.apStartedCount
  booting : s.Words a → s.Booting a →
    s'.Booting a ∧ s'.apStartedCount = s.apStartedCount ∨ s'.Up a
  registered : s.Up a ∨ s.Booting a → (∀ b, s.cpus.count b =
      if (s.cores b).pastInit ∧ b ≠ 0 then 1 else 0) →
    ∀ b, s'.cpus.count b = if (s'.cores b).pastInit ∧ b ≠ 0 then 1 else 0

namespace OnlyCore

variable {a b : BitVec 8}

theorem asleep_iff (h : OnlyCore s s' a) (hb : b ≠ a) : s'.Asleep b ↔ s.Asleep b := by
  unfold Asleep
  rw [h.cores b hb, h.ipis b hb]

theorem up_iff (h : OnlyCore s s' a) (hb : b ≠ a) : s'.Up b ↔ s.Up b := by
  unfold Up
  rw [h.cores b hb, h.ipis b hb, h.stackTop]

theorem booting (h : OnlyCore s s' a) (hb : b ≠ a) (hs : s.Booting b) : s'.Booting b :=
  hs.congr (h.cores b hb) (h.ipis b hb) (congrFun h.stackTop b)

theorem words_iff (h : OnlyCore s s' a) : s'.Words b ↔ s.Words b := by
  unfold Words
  rw [h.apicId, h.stackAddr, h.stackTop]

end OnlyCore

/-- The turn of another core waits while a core that is up does something. -/
theorem Turn.congr {a : BitVec 8} (h : s.Turn s.bsp) (ho : OnlyCore s s' a)
    (hadv : s.Advance s' a) (hother : s.bsp.turn ≠ some a → s.Up a) : s'.Turn s.bsp := by
  have hsleep : ∀ b, s.Asleep b → s'.Asleep b := by
    intro b hb
    have hba : b ≠ a := fun hba => hadv.awake (hba ▸ hb)
    exact (ho.asleep_iff hba).mpr hb
  have hwoken : ∀ b count, s.bsp.turn = some b → s.Woken b count → s'.Woken b count := by
    intro b count hturn hb
    refine ⟨ho.words_iff.mpr hb.1, ?_⟩
    by_cases hba : b = a
    · -- the turn of the core that steps
      subst hba
      rcases hb.2 with hboot | hup
      · rcases hadv.booting hb.1 hboot.1 with h' | h'
        · exact .inl ⟨h'.1, h'.2.trans hboot.2⟩
        · exact .inr h'
      · exact .inr (hadv.up hup).1
    · -- the core that steps has had its turn: it does not count once more
      rcases hb.2 with hboot | hup
      · have hup : s.Up a := hother (by rw [hturn]; exact fun h => hba (Option.some.inj h))
        exact .inl ⟨ho.booting hba hboot.1, (hadv.up hup).2.trans hboot.2⟩
      · exact .inr ((ho.up_iff hba).mpr hup)
  revert h hwoken
  cases hbsp : s.bsp with
  | next => exact fun _ _ => trivial
  | done => exact fun _ _ => trivial
  | allocate b => exact fun h _ => ⟨hsleep b h.1, ho.apicId.trans h.2⟩
  | sample b => exact fun h _ => ⟨hsleep b h.1, ho.words_iff.mpr h.2⟩
  | sendInit b count =>
    intro h _
    have hba : b ≠ a := fun hba => hadv.awake (hba ▸ h.1)
    have hup : s.Up a := hother (by
      rw [hbsp]
      exact fun h => hba (Option.some.inj h))
    exact ⟨hsleep b h.1, ho.words_iff.mpr h.2.1, (hadv.up hup).2.trans h.2.2⟩
  | sendStartup b count => exact fun h hwoken => hwoken b count rfl h
  | check b count => exact fun h hwoken => hwoken b count rfl h
  | wait b count timeout => exact fun h hwoken => hwoken b count rfl h

/-- A core that takes a step keeps the turns in order. -/
theorem InTurn.advance {a : BitVec 8} (h : s.InTurn cpuIds bspId) (ho : OnlyCore s s' a)
    (hadv : s.Advance s' a) : s'.InTurn cpuIds bspId := by
  have hcase := h.cases hadv.awake
  constructor
  case turn =>
    rw [ho.bsp]
    apply h.turn.congr ho hadv
    intro hn
    exact hcase.resolve_right fun h' => hn h'.1
  case now =>
    rw [ho.bsp, ho.i]
    exact h.now
  case up =>
    intro b hb hbsp
    rw [ho.i] at hb
    have hup := h.up b hb hbsp
    by_cases hba : b = a
    · subst hba
      exact (hadv.up hup).1
    · exact (ho.up_iff hba).mpr hup
  case asleep =>
    intro b hb hturn
    rw [ho.i] at hb
    rw [ho.bsp] at hturn
    have hs := h.asleep b hb hturn
    have hba : b ≠ a := fun hba => hadv.awake (hba ▸ hs)
    exact (ho.asleep_iff hba).mpr hs
  case ended =>
    rw [ho.bsp, ho.i]
    exact h.ended
  case registered =>
    exact hadv.registered (hcase.imp_right fun h' => h'.2.2) h.registered

/-- A SIPI matters only to a core that waits for one. -/
theorem receive_startup {c : ApCore} (h : c ≠ .waitSipi) : c.receive .startup = c := by
  cases c with
  | waitSipi => exact absurd rfl h
  | off => rfl
  | trampoline => rfl
  | stackLoaded rsp => rfl
  | apMain rsp apicId => rfl
  | registered rsp apicId => rfl
  | started rsp apicId => rfl

theorem pastInit_receive {m : Ipi} {c : ApCore} (h : m = .startup ∨ c = .off) :
    (c.receive m).pastInit = c.pastInit := by
  rcases h with rfl | rfl
  · cases c <;> rfl
  · cases m <;> rfl

/-- The registrations when core `a` goes from `c` to `c'`. -/
theorem registered_setCore {a : BitVec 8} {c : ApCore} {l : List (BitVec 8)}
    (hs : ∀ b, l.count b = if (s.cores b).pastInit ∧ b ≠ 0 then 1 else 0)
    (hc : c.pastInit = (s.cores a).pastInit) (b : BitVec 8) :
    l.count b = if (Function.update s.cores a c b).pastInit ∧ b ≠ 0 then 1 else 0 := by
  rw [hs b]
  by_cases hba : b = a
  · subst hba
    rw [Function.update_self, hc]
  · rw [Function.update_of_ne hba]

/-- An interrupt arrives. -/
theorem advance_deliver {a : BitVec 8} {m : Ipi} {rest : List Ipi} (hm : s.ipis a = m :: rest) :
    s.Advance { s.setCore a ((s.cores a).receive m) with
      ipis := Function.update s.ipis a rest } a := by
  have hrest : Late (s.ipis a) → m = .startup ∧ Late rest := by
    intro hlate
    rw [hm] at hlate
    exact ⟨hlate m (List.mem_cons_self ..), fun x hx => hlate x (List.mem_cons_of_mem _ hx)⟩
  constructor
  case awake =>
    intro hs
    have hnil := hs.2
    rw [hm] at hnil
    exact absurd hnil (List.cons_ne_nil _ _)
  case up =>
    intro hs
    obtain ⟨rfl, hlate⟩ := hrest hs.2
    simp [Up, setCore, hs.1, ApCore.receive, hlate]
  case booting =>
    intro _ hs
    refine .inl ⟨?_, rfl⟩
    rcases hs.cases_off with ⟨l, hoff, hipis, hl⟩ | hoff
    · rw [hm] at hipis
      obtain ⟨rfl, rfl⟩ := List.cons.inj hipis
      -- the INIT
      exact .waitSipi (by simp [setCore, ApCore.receive]) (by simpa using hl)
    · obtain ⟨rfl, hlate⟩ := hrest (hs.late hoff)
      by_cases hsipi : s.cores a = .waitSipi
      · exact .trampoline (by simp [setCore, hsipi, ApCore.receive]) (by simpa using hlate)
      · apply hs.keep hoff
        · simp [setCore, receive_startup hsipi]
        · rfl
        · simpa using hlate
  case registered =>
    intro hs hreg b
    apply registered_setCore hreg (pastInit_receive _)
    rcases hs with hup | hboot
    · exact .inl (hrest hup.2).1
    · rcases hboot.cases_off with ⟨l, hoff, -, -⟩ | hoff
      · exact .inr hoff
      · exact .inl (hrest (hboot.late hoff)).1

theorem onlyCore_deliver {a : BitVec 8} {c : ApCore} {l : List Ipi} :
    OnlyCore s { s.setCore a c with ipis := Function.update s.ipis a l } a where
  bsp := rfl
  i := rfl
  apicId := rfl
  stackAddr := rfl
  stackTop := rfl
  cores _ hb := Function.update_of_ne hb ..
  ipis _ hb := Function.update_of_ne hb ..

theorem onlyCore_core {a : BitVec 8} {c : ApCore} {l : List (BitVec 8)} {n : Nat} :
    OnlyCore s { s.setCore a c with cpus := l, apStartedCount := n } a where
  bsp := rfl
  i := rfl
  apicId := rfl
  stackAddr := rfl
  stackTop := rfl
  cores _ hb := Function.update_of_ne hb ..
  ipis _ _ := rfl

/-- A core that goes on: what it may be, and what becomes of it. -/
theorem coreStep_cases {a : BitVec 8} (h : s.coreStep a = some s') :
    (s.cores a = .trampoline ∧ s' = s.setCore a (.stackLoaded s.trampolineStackAddr)) ∨
    (∃ rsp, s.cores a = .stackLoaded rsp ∧
      s' = s.setCore a (.apMain rsp (s.trampolineApicId.setWidth 8))) ∨
    (∃ rsp apicId, s.cores a = .apMain rsp apicId ∧
      s' = { s.setCore a (.registered rsp apicId) with
        cpus := if apicId = 0 then s.cpus else s.cpus ++ [apicId] }) ∨
    (∃ rsp apicId, s.cores a = .registered rsp apicId ∧
      s' = { s.setCore a (.started rsp apicId) with apStartedCount := s.apStartedCount + 1 }) := by
  unfold coreStep at h
  cases hc : s.cores a with
  | off => simp [hc] at h
  | waitSipi => simp [hc] at h
  | started rsp apicId => simp [hc] at h
  | trampoline =>
    simp only [hc] at h
    exact .inl ⟨rfl, (Option.some.inj h).symm⟩
  | stackLoaded rsp =>
    simp only [hc] at h
    exact .inr (.inl ⟨rsp, rfl, (Option.some.inj h).symm⟩)
  | apMain rsp apicId =>
    simp only [hc] at h
    exact .inr (.inr (.inl ⟨rsp, apicId, rfl, (Option.some.inj h).symm⟩))
  | registered rsp apicId =>
    simp only [hc] at h
    exact .inr (.inr (.inr ⟨rsp, apicId, rfl, (Option.some.inj h).symm⟩))

theorem onlyCore_step {a : BitVec 8} (h : s.coreStep a = some s') : OnlyCore s s' a := by
  rcases coreStep_cases h with ⟨_, rfl⟩ | ⟨_, _, rfl⟩ | ⟨_, _, _, rfl⟩ | ⟨_, _, _, rfl⟩
  · exact onlyCore_core
  · exact onlyCore_core
  · exact onlyCore_core
  · exact onlyCore_core

theorem coreStep_ne_off {a : BitVec 8} (h : s.coreStep a = some s') : s.cores a ≠ .off := by
  intro hc
  simp [coreStep, hc] at h

theorem coreStep_ne_started {a : BitVec 8} {rsp : Word} {apicId : BitVec 8}
    (h : s.coreStep a = some s') : s.cores a ≠ .started rsp apicId := by
  intro hc
  simp [coreStep, hc] at h

/-- A core on its way loads what was left for it, and is counted last. -/
theorem booting_core {a : BitVec 8} (h : s.coreStep a = some s') (hw : s.Words a)
    (hb : s.Booting a) :
    s'.Booting a ∧ s'.apStartedCount = s.apStartedCount ∨ s'.Up a := by
  have hlate := hb.late (coreStep_ne_off h)
  have howns := hb.owns
  rcases coreStep_cases h with
    ⟨_, rfl⟩ | ⟨rsp, hc, rfl⟩ | ⟨rsp, apicId, hc, rfl⟩ | ⟨rsp, apicId, hc, rfl⟩
  · exact .inl ⟨.stackLoaded (by simp [setCore, hw.2]) hlate, rfl⟩
  · rw [hc] at howns
    obtain rfl : rsp = s.stackTop a := howns
    exact .inl ⟨.apMain (by simp [setCore, hw.1]) hlate, rfl⟩
  · rw [hc] at howns
    obtain ⟨rfl, rfl⟩ := howns
    exact .inl ⟨.registered (by simp [setCore]) hlate, rfl⟩
  · rw [hc] at howns
    obtain ⟨rfl, rfl⟩ := howns
    exact .inr ⟨by simp [setCore], hlate⟩

/-- `cpu_init` registers the core under its own id. -/
theorem registered_apMain {a : BitVec 8} {rsp : Word} (hc : s.cores a = .apMain rsp a)
    (hs : ∀ b, s.cpus.count b = if (s.cores b).pastInit ∧ b ≠ 0 then 1 else 0) (b : BitVec 8) :
    (if a = 0 then s.cpus else s.cpus ++ [a]).count b =
      if (Function.update s.cores a (.registered rsp a) b).pastInit ∧ b ≠ 0 then 1 else 0 := by
  have hb := hs b
  by_cases ha : a = 0
  · rw [if_pos ha, hb]
    by_cases hba : b = a
    · rw [hba, ha]
      simp
    · rw [Function.update_of_ne hba]
  · rw [if_neg ha, List.count_append, hb, List.count_singleton]
    by_cases hba : b = a
    · rw [hba, hc, Function.update_self]
      simpa [ApCore.pastInit] using ha
    · have hab : (a == b) = false := beq_false_of_ne fun h => hba h.symm
      rw [Function.update_of_ne hba, hab]
      rfl

theorem advance_core {a : BitVec 8} (h : s.coreStep a = some s') : s.Advance s' a where
  awake hs := coreStep_ne_off h hs.1
  up hs := absurd hs.1 (coreStep_ne_started h)
  booting hw hb := booting_core h hw hb
  registered := by
    intro hs hreg
    have hb : s.Booting a := hs.resolve_left fun hup => coreStep_ne_started h hup.1
    have howns := hb.owns
    rcases coreStep_cases h with
      ⟨hc, rfl⟩ | ⟨rsp, hc, rfl⟩ | ⟨rsp, apicId, hc, rfl⟩ | ⟨rsp, apicId, hc, rfl⟩
    · exact registered_setCore hreg (by rw [hc]; rfl)
    · exact registered_setCore hreg (by rw [hc]; rfl)
    · rw [hc] at howns
      obtain ⟨rfl, rfl⟩ := howns
      exact registered_apMain hc hreg
    · exact registered_setCore hreg (by rw [hc]; rfl)

/-! ## §4. The turns of `smp_init`. -/

/-- What a statement of `smp_init` leaves alone, unless it is about `a`. -/
structure OnlyTurn (s s' : Startup) (a : BitVec 8) : Prop where
  cores : s'.cores = s.cores
  ipis : ∀ b ≠ a, s'.ipis b = s.ipis b
  stackTop : ∀ b ≠ a, s'.stackTop b = s.stackTop b
  cpus : s'.cpus = s.cpus
  i : s'.i = s.i

namespace OnlyTurn

variable {a b : BitVec 8}

theorem asleep_iff (h : OnlyTurn s s' a) (hb : b ≠ a) : s'.Asleep b ↔ s.Asleep b := by
  unfold Asleep
  rw [h.cores, h.ipis b hb]

theorem up_iff (h : OnlyTurn s s' a) (hb : b ≠ a) : s'.Up b ↔ s.Up b := by
  unfold Up
  rw [h.cores, h.ipis b hb, h.stackTop b hb]

end OnlyTurn

theorem getElem?_notMem_take (hids : cpuIds.Nodup) {i : Nat} {a : BitVec 8}
    (hi : cpuIds[i]? = some a) : a ∉ cpuIds.take i := by
  intro hmem
  obtain ⟨j, hj, hja⟩ := List.mem_take_iff_getElem.mp hmem
  obtain ⟨hlt, hia⟩ := List.getElem?_eq_some_iff.mp hi
  have hij : j = i := (List.Nodup.getElem_inj_iff hids).mp (hja.trans hia.symm)
  omega

/-- A statement within the turn of a core. -/
theorem InTurn.within {a : BitVec 8} (hids : cpuIds.Nodup) (h : s.InTurn cpuIds bspId)
    (ha : s.bsp.turn = some a) (ho : OnlyTurn s s' a) (ha' : s'.bsp.turn = some a)
    (hturn : s'.Turn s'.bsp) : s'.InTurn cpuIds bspId := by
  have hnow := h.now a ha
  have hnotMem := getElem?_notMem_take hids hnow.1
  constructor
  case turn => exact hturn
  case now =>
    intro b hb
    obtain rfl := Option.some.inj (ha'.symm.trans hb)
    rw [ho.i]
    exact hnow
  case up =>
    intro b hb hbsp
    rw [ho.i] at hb
    have hba : b ≠ a := fun hba => hnotMem (hba ▸ hb)
    exact (ho.up_iff hba).mpr (h.up b hb hbsp)
  case asleep =>
    intro b hb hbturn
    rw [ho.i] at hb
    have hba : b ≠ a := fun hba => hbturn (hba ▸ ha')
    have hother : s.bsp.turn ≠ some b := by
      rw [ha]
      exact fun h => hba (Option.some.inj h).symm
    exact (ho.asleep_iff hba).mpr (h.asleep b hb hother)
  case ended =>
    intro hdone
    simp [hdone, BspPc.turn] at ha'
  case registered =>
    rw [ho.cpus, ho.cores]
    exact h.registered

/-- The turn of an id that needs no start, or whose core is up, is over. -/
theorem InTurn.endTurn {a : BitVec 8} (h : s.InTurn cpuIds bspId) (hi : cpuIds[s.i]? = some a)
    (hup : a ≠ bspId → s.Up a) (hturn : ∀ b, s.bsp.turn = some b → b = a) :
    Startup.InTurn cpuIds bspId { s with bsp := .next, i := s.i + 1 } := by
  have htake : cpuIds.take (s.i + 1) = cpuIds.take s.i ++ [a] := by
    rw [List.take_add_one, hi]
    rfl
  constructor
  case turn => trivial
  case now =>
    intro b hb
    exact absurd hb (by simp [BspPc.turn])
  case up =>
    intro b hb hbsp
    simp only [htake, List.mem_append, List.mem_singleton] at hb
    rcases hb with hb | rfl
    · exact h.up b hb hbsp
    · exact hup hbsp
  case asleep =>
    intro b hb _
    simp only [htake, List.mem_append, List.mem_singleton, not_or] at hb
    rcases hb with hb | rfl
    · exact h.asleep b (.inl hb.1) fun hb' => hb.2 (hturn b hb')
    · exact h.asleep b (.inr rfl) fun hb' => (h.now b hb').2 rfl
  case ended =>
    intro hdone
    exact absurd hdone (by simp)
  case registered => exact h.registered

/-- Another SIPI changes nothing for the turn. -/
theorem Woken.send {a : BitVec 8} {count : Nat} (h : s.Woken a count) :
    (s.send a .startup).Woken a count := by
  have hlate : Late (s.ipis a) → Late ((s.send a .startup).ipis a) := by
    intro hl m hm
    simp only [Startup.send, Function.update_self, List.mem_append, List.mem_singleton] at hm
    exact hm.elim (hl m) id
  refine ⟨h.1, h.2.imp (fun hb => ⟨?_, hb.2⟩) fun hup => ⟨hup.1, hlate hup.2⟩⟩
  rcases hb.1.cases_off with ⟨l, hoff, hipis, hl⟩ | hoff
  · refine .reset (l ++ [.startup]) hoff ?_ ?_
    · simp [Startup.send, hipis]
    · intro m hm
      rcases List.mem_append.mp hm with hm | hm
      · exact hl m hm
      · exact List.mem_singleton.mp hm
  · exact hb.1.keep hoff rfl rfl (hlate (hb.1.late hoff))

theorem onlyTurn_bsp {a : BitVec 8} {pc : BspPc} : OnlyTurn s { s with bsp := pc } a :=
  ⟨rfl, fun _ _ => rfl, fun _ _ => rfl, rfl, rfl⟩

theorem onlyTurn_send {a : BitVec 8} {m : Ipi} {pc : BspPc} :
    OnlyTurn s { s.send a m with bsp := pc } a :=
  ⟨rfl, fun _ hb => Function.update_of_ne hb .., fun _ _ => rfl, rfl, rfl⟩

/-- The next id of `cpu_ids`. -/
theorem InTurn.next (hids : cpuIds.Nodup) (h : s.InTurn cpuIds bspId) (hbsp : s.bsp = .next)
    {stack : Word}
    (hs : s.bspStep cpuIds bspId stack = some s') : s'.InTurn cpuIds bspId := by
  have hnone : ∀ b, s.bsp.turn ≠ some b := by
    intro b
    simp [hbsp, BspPc.turn]
  simp only [bspStep, hbsp] at hs
  cases hi : cpuIds[s.i]? with
  | none =>
    -- the loop is over
    simp only [hi, Option.some.injEq] at hs
    subst hs
    exact {
      turn := trivial
      now := fun b hb => absurd hb (by simp [BspPc.turn])
      up := h.up
      asleep := fun b hb _ => h.asleep b hb (hnone b)
      ended := fun _ => List.getElem?_eq_none_iff.mp hi
      registered := h.registered }
  | some a =>
    simp only [hi] at hs
    split at hs
    next ha =>
      obtain rfl := Option.some.inj hs
      exact h.endTurn hi (fun hne => absurd ha hne) fun b hb => absurd hb (hnone b)
    next ha =>
      obtain rfl := Option.some.inj hs
      have hmem := getElem?_notMem_take hids hi
      exact {
        turn := ⟨h.asleep a (.inl hmem) (hnone a), rfl⟩
        now := by
          intro b hb
          obtain rfl := Option.some.inj hb
          exact ⟨hi, ha⟩
        up := h.up
        asleep := fun b hb _ => h.asleep b hb (hnone b)
        ended := fun hdone => absurd hdone (by simp)
        registered := h.registered }

/-- **A statement of `smp_init`** that does not give a core up. -/
theorem InTurn.bspStep (hids : cpuIds.Nodup) (h : s.InTurn cpuIds bspId) {stack : Word}
    (hwait : ¬ s.TimesOut (.bsp stack)) (hs : s.bspStep cpuIds bspId stack = some s') :
    s'.InTurn cpuIds bspId := by
  have hturn := h.turn
  cases hbsp : s.bsp with
  | next => exact h.next hids hbsp hs
  | done => simp [Startup.bspStep, hbsp] at hs
  | allocate a =>
    simp only [Startup.bspStep, hbsp] at hs
    obtain rfl := Option.some.inj hs
    rw [hbsp] at hturn
    apply h.within hids (a := a) (by rw [hbsp]; rfl)
    · exact ⟨rfl, fun _ _ => rfl, fun _ hb => Function.update_of_ne hb .., rfl, rfl⟩
    · rfl
    · exact ⟨hturn.1, hturn.2, by simp⟩
  | sample a =>
    simp only [Startup.bspStep, hbsp] at hs
    obtain rfl := Option.some.inj hs
    rw [hbsp] at hturn
    exact h.within hids (a := a) (by rw [hbsp]; rfl) onlyTurn_bsp rfl ⟨hturn.1, hturn.2, rfl⟩
  | sendInit a count =>
    simp only [Startup.bspStep, hbsp] at hs
    obtain rfl := Option.some.inj hs
    rw [hbsp] at hturn
    obtain ⟨⟨hoff, hnil⟩, hwords, hcount⟩ := hturn
    apply h.within hids (a := a) (by rw [hbsp]; rfl) onlyTurn_send rfl
    refine ⟨hwords, .inl ⟨.reset [] hoff ?_ ?_, hcount⟩⟩
    · simp [send, hnil]
    · simp [Late]
  | sendStartup a count =>
    simp only [Startup.bspStep, hbsp] at hs
    obtain rfl := Option.some.inj hs
    rw [hbsp] at hturn
    exact h.within hids (a := a) (by rw [hbsp]; rfl) onlyTurn_send rfl (Woken.send hturn).setBsp
  | check a count =>
    simp only [Startup.bspStep, hbsp] at hs
    rw [hbsp] at hturn
    split at hs
    next =>
      obtain rfl := Option.some.inj hs
      exact h.within hids (a := a) (by rw [hbsp]; rfl) onlyTurn_send rfl (Woken.send hturn).setBsp
    next =>
      obtain rfl := Option.some.inj hs
      exact h.within hids (a := a) (by rw [hbsp]; rfl) onlyTurn_bsp rfl (Woken.setBsp hturn)
  | wait a count timeout =>
    simp only [Startup.bspStep, hbsp] at hs
    rw [hbsp] at hturn
    split at hs
    next =>
      obtain rfl := Option.some.inj hs
      exact h.within hids (a := a) (by rw [hbsp]; rfl) onlyTurn_bsp rfl (Woken.setBsp hturn)
    next hstop =>
      obtain rfl := Option.some.inj hs
      -- the count has changed, so the core of this turn is up
      have hcount : s.apStartedCount ≠ count := by
        intro heq
        by_cases ht : timeout = 0
        · subst ht
          exact hwait (by simp [TimesOut, hbsp, heq])
        · exact hstop ⟨heq, ht⟩
      have hup : s.Up a := hturn.2.resolve_left fun hb => hcount hb.2
      apply h.endTurn (h.now a (by rw [hbsp]; rfl)).1 fun _ => hup
      intro b hb
      rw [hbsp] at hb
      exact (Option.some.inj hb).symm

/-- **One step** of `smp_init`, of an interrupt or of a core. -/
theorem InTurn.step (hids : cpuIds.Nodup) (h : s.InTurn cpuIds bspId) {act : StartupAct}
    (hwait : ¬ s.TimesOut act) (hs : Steps cpuIds bspId s act s') : s'.InTurn cpuIds bspId := by
  cases act with
  | bsp stack => exact h.bspStep hids hwait hs
  | core a => exact h.advance (onlyCore_step hs) (advance_core hs)
  | deliver a =>
    simp only [Steps, Startup.step] at hs
    split at hs
    next => exact absurd hs (by simp)
    next m rest hm =>
      obtain rfl := Option.some.inj hs
      exact h.advance onlyCore_deliver (advance_deliver hm)

/-- A core that is starting has its turn. -/
theorem InTurn.turn_of_starting (h : s.InTurn cpuIds bspId) {a : BitVec 8}
    (ha : (s.cores a).starting) : s.bsp.turn = some a := by
  have hawake : ¬ s.Asleep a := by
    intro hs
    rw [hs.1] at ha
    exact absurd ha (by simp [ApCore.starting])
  rcases h.cases hawake with hup | hturn
  · rw [hup.1] at ha
    exact absurd ha (by simp [ApCore.starting])
  · exact hturn.1

theorem InTurn.apart (h : s.InTurn cpuIds bspId) : s.Apart where
  owns := by
    intro a
    by_cases ha : s.Asleep a
    · simp [ha.1, ApCore.Owns]
    · rcases h.cases ha with hup | hturn
      · simp [hup.1, ApCore.Owns]
      · exact hturn.2.2.owns
  alone := by
    intro a b ha hb
    exact Option.some.inj ((h.turn_of_starting ha).symm.trans (h.turn_of_starting hb))
  registered := h.registered

/-! ## §5. Whole runs. -/

end Startup

variable {cpuIds : List (BitVec 8)} {bspId : BitVec 8}

/-- Actions one after the other, none of which `stop` holds of. -/
def Startup.play (cpuIds : List (BitVec 8)) (bspId : BitVec 8)
    (stop : Startup → StartupAct → Bool) (s : Startup) (acts : List StartupAct) : Option Startup :=
  acts.foldlM (fun s act => if stop s act then none else s.step cpuIds bspId act) s

theorem Startup.exists_run {stop : Startup → StartupAct → Bool} {s s' : Startup}
    {acts : List StartupAct} (h : s.play cpuIds bspId stop acts = some s') :
    ∃ tr, Run (Steps cpuIds bspId) s tr s' ∧ ∀ x ∈ tr, ¬ stop x.1 x.2.1 := by
  induction acts generalizing s with
  | nil =>
    obtain rfl := Option.some.inj h
    exact ⟨[], .nil s, by simp⟩
  | cons act acts ih =>
    rw [play, List.foldlM_cons] at h
    obtain ⟨t, hstep, hrest⟩ := Option.bind_eq_some_iff.mp h
    split at hstep
    next => exact absurd hstep (by simp)
    next hstop =>
      obtain ⟨tr, hrun, htr⟩ := ih hrest
      have hfirst : Run (Steps cpuIds bspId) s [(s, act, t)] t := (Run.nil s).snoc hstep
      refine ⟨(s, act, t) :: tr, hfirst.append hrun, fun x hx => ?_⟩
      rcases List.mem_cons.mp hx with rfl | hx
      · exact hstop
      · exact htr x hx

/-- Every run keeps the turns in order. -/
theorem Startup.InTurn.run {s s' : Startup} {tr : List (Transition Startup StartupAct)}
    (hids : cpuIds.Nodup) (hstart : s.Start) (hrun : Run (Steps cpuIds bspId) s tr s')
    (hwait : ∀ x ∈ tr, ¬ x.1.TimesOut x.2.1) : s'.InTurn cpuIds bspId := by
  -- `InTurn` carries the induction: it says whose the words are at every step
  apply hrun.invariant (I := fun s => s.InTurn cpuIds bspId) (C := fun s act => ¬ s.TimesOut act)
  · exact fun s act s' hI hC hs => hI.step hids hC hs
  · exact hwait
  · exact .start hstart

theorem Startup.InTurn.started {s : Startup} (h : s.InTurn cpuIds bspId) (hdone : s.bsp = .done)
    {a : BitVec 8} (ha : a ∈ cpuIds) (hbsp : a ≠ bspId) :
    s.cores a = .started (s.stackTop a) a := by
  have hall : cpuIds.take s.i = cpuIds := List.take_of_length_le (h.ended hdone)
  exact (h.up a (by rwa [hall]) hbsp).1

/-- The boot processor and what ACPI does not list. -/
theorem Startup.InTurn.off {s : Startup} (h : s.InTurn cpuIds bspId) {a : BitVec 8}
    (ha : a ∉ cpuIds ∨ a = bspId) : s.cores a = .off := by
  have hother : s.bsp.turn ≠ some a := by
    intro hturn
    have hnow := h.now a hturn
    exact ha.elim (fun hn => hn (List.mem_of_getElem? hnow.1)) hnow.2
  exact (h.asleep a (ha.imp_left fun hn hmem => hn (List.mem_of_mem_take hmem)) hother).1

/-- **Bringing up the cores**: as long as no wait of `smp_init` times out, the
    cores are apart; when it has returned, each core ACPI lists runs on the
    stack allocated for it under its own id; and no other core is woken. -/
theorem ap_startup_own {cpuIds : List (BitVec 8)} {bspId : BitVec 8} {s s' : Startup}
    {tr : List (Transition Startup StartupAct)} (hids : cpuIds.Nodup) (hstart : s.Start)
    (hrun : Run (Startup.Steps cpuIds bspId) s tr s') (hwait : ∀ x ∈ tr, ¬ x.1.TimesOut x.2.1) :
    s'.Apart ∧
      (s'.bsp = .done → ∀ a ∈ cpuIds, a ≠ bspId → s'.cores a = .started (s'.stackTop a) a) ∧
      ∀ a, a ∉ cpuIds ∨ a = bspId → s'.cores a = .off := by
  have h := Startup.InTurn.run hids hstart hrun hwait
  exact ⟨h.apart, fun hdone a ha hbsp => h.started hdone ha hbsp, fun a ha => h.off ha⟩

/-- The boot processor is core 0, and nothing has been started. -/
def coresOff : Startup where
  bsp := .next
  i := 0
  trampolineApicId := 0
  trampolineStackAddr := 0
  apStartedCount := 0
  cores := fun _ => .off
  ipis := fun _ => []
  cpus := []
  stackTop := fun _ => 0

theorem coresOff_start : coresOff.Start :=
  ⟨rfl, rfl, fun _ => rfl, fun _ => rfl, rfl⟩

/-- `smp_init` starts core 1, whose two interrupts arrive at once. -/
def bringUpOne : List StartupAct :=
  List.replicate 5 (.bsp 0x100000) ++ [.deliver 1, .bsp 0, .deliver 1] ++
    List.replicate 4 (.core 1) ++ List.replicate 3 (.bsp 0)

/-- `ap_startup_own` when there is one other core. -/
theorem ap_startup_own_one : ∃ (tr : List (Transition Startup StartupAct)) (s' : Startup),
    Run (Startup.Steps [0, 1] 0) coresOff tr s' ∧ s'.Apart ∧
      s'.cores 1 = .started (s'.stackTop 1) 1 := by
  have hplay : ((coresOff.play [0, 1] 0 Startup.TimesOut bringUpOne).map Startup.bsp) =
      some .done := by decide +kernel
  obtain ⟨s', hs', hdone⟩ := Option.map_eq_some_iff.mp hplay
  obtain ⟨tr, hrun, hwait⟩ := Startup.exists_run hs'
  have hown := ap_startup_own (by decide) coresOff_start hrun hwait
  exact ⟨tr, s', hrun, hown.1, hown.2.1 hdone 1 (by decide) (by decide)⟩

/-- A core that does not come in time is given up. -/
theorem Startup.wait_out {a : BitVec 8} {timeout : Nat} {s : Startup}
    (h : s.bsp = .wait a s.apStartedCount timeout) :
    ∃ tr, Run (Steps cpuIds bspId) s tr { s with bsp := .next, i := s.i + 1 } := by
  induction timeout generalizing s with
  | zero =>
    have hstep : Steps cpuIds bspId s (.bsp 0) { s with bsp := .next, i := s.i + 1 } := by
      simp [Steps, Startup.step, bspStep, h]
    exact ⟨_, (Run.nil s).snoc hstep⟩
  | succ timeout ih =>
    have hstep : Steps cpuIds bspId s (.bsp 0)
        { s with bsp := .wait a s.apStartedCount timeout } := by
      simp [Steps, Startup.step, bspStep, h]
    obtain ⟨tr, hrun⟩ := ih (s := { s with bsp := .wait a s.apStartedCount timeout }) rfl
    exact ⟨_, ((Run.nil s).snoc hstep).append hrun⟩

/-- `smp_init` up to the wait for core 1, which gets no interrupt yet. -/
def waitForOne : Option Startup :=
  coresOff.play [0, 1, 2] 0 (fun _ _ => false) (List.replicate 7 (.bsp 0x100000))

/-- It goes on with core 2; only now core 1 wakes up, and then core 2. -/
def lateCore : List StartupAct :=
  List.replicate 5 (.bsp 0x200000) ++
    [.deliver 1, .deliver 1, .core 1, .core 1, .deliver 2, .bsp 0, .deliver 2, .core 2, .core 2]

/-- **A late core**: after a timeout two cores enter `ap_main` on one stack,
    and both as core 2. -/
theorem ap_startup_late : ∃ (tr : List (Transition Startup StartupAct)) (s' : Startup),
    Run (Startup.Steps [0, 1, 2] 0) coresOff tr s' ∧ s'.cores 1 = .apMain 0x204000 2 ∧
      s'.cores 2 = .apMain 0x204000 2 ∧ ¬ s'.Apart := by
  have hfirst : waitForOne.map (fun s => (s.bsp, s.apStartedCount)) =
      some (.wait 1 0 100000, 0) := by decide +kernel
  have hlast : (waitForOne.bind fun s =>
      Startup.play [0, 1, 2] 0 (fun _ _ => false) { s with bsp := .next, i := s.i + 1 }
        lateCore).map (fun s => (s.cores 1, s.cores 2)) =
      some (.apMain 0x204000 2, .apMain 0x204000 2) := by decide +kernel
  obtain ⟨s, hs, hwait⟩ := Option.map_eq_some_iff.mp hfirst
  obtain ⟨s', hs', hcores⟩ := Option.map_eq_some_iff.mp hlast
  rw [hs, Option.bind_some] at hs'
  obtain ⟨hbsp, hcount⟩ := Prod.mk.inj hwait
  obtain ⟨h1, h2⟩ := Prod.mk.inj hcores
  obtain ⟨tr₁, hrun₁, -⟩ := Startup.exists_run hs
  have hout : ∃ tr, Run (Startup.Steps [0, 1, 2] 0) s tr { s with bsp := .next, i := s.i + 1 } :=
    Startup.wait_out (hbsp.trans (by rw [hcount]))
  obtain ⟨tr₂, hrun₂⟩ := hout
  obtain ⟨tr₃, hrun₃, -⟩ := Startup.exists_run hs'
  refine ⟨_, s', (hrun₁.append hrun₂).append hrun₃, h1, h2, fun hapart => ?_⟩
  have hboth := hapart.alone 1 2 (by rw [h1]; rfl) (by rw [h2]; rfl)
  exact absurd hboth (by decide)

/-! ## §6. The cores of the firmware's tables. -/

/-- **From the MADT to running cores**: where `acpi_init` is right, the cores
    that run when `smp_init` returns are those that well-formed tables list as
    enabled. -/
theorem madt_cores_started {mem : Mem} {rsdp : Word} {tables : List SdtTable} {bspId : BitVec 8}
    {s s' : Startup} {tr : List (Transition Startup StartupAct)} (hacpi : AcpiRight mem)
    (hrsdp : findRsdp mem = some rsdp) (htables : RsdtAt mem (mem.load32 (rsdp + 16)) tables)
    (hids : (tables.flatMap SdtTable.enabledIds).Nodup) (hstart : s.Start) :
    ∃ fuel acpi, (acpiInit mem fuel).val = some acpi ∧
      (Run (Startup.Steps acpi.cpuIds bspId) s tr s' → (∀ x ∈ tr, ¬ x.1.TimesOut x.2.1) →
        s'.bsp = .done → ∀ a ≠ bspId,
          s'.cores a = if a ∈ tables.flatMap SdtTable.enabledIds then .started (s'.stackTop a) a
            else .off) := by
  obtain ⟨fuel, acpi, hinit, -, -, hlisted⟩ := hacpi
  refine ⟨fuel, acpi, hinit, fun hrun hwait hdone a ha => ?_⟩
  rw [hlisted rsdp tables hrsdp htables] at hrun
  have h := Startup.InTurn.run hids hstart hrun hwait
  by_cases hmem : a ∈ tables.flatMap SdtTable.enabledIds
  · rw [if_pos hmem]
    exact h.started hdone hmem ha
  · rw [if_neg hmem]
    exact h.off (.inl hmem)

end ZohoOs
