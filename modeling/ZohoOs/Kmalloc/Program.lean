/-
  ZohoOs.Kmalloc.Program — code that allocates.

  A function that calls `kmalloc` is written here as a program over the heap:
  it asks for blocks, stores through the pointers it got, and frees.  A store
  is logged with the pointer it goes through, so that a store through `NULL`
  shows in the log.  Outside the bytes that were asked for lie the header of
  the next block and other live blocks: a store there leaves the program
  without an outcome.  What the stores write is not part of the program.

  `Handles Q x h` says that `x` ends on the heap `h`, stored nothing through
  `NULL`, and left a result and a heap of which `Q` holds.

  Main results:
    * `handles_pure`, `handles_store`, `handles_kfree` — what is required of
      each statement;
    * `handles_kmalloc` — a block is granted or refused as first fit decides
      on the blocks before the call;
    * `handles_kmalloc_needed` — a block that is stored into at once has to be
      granted.
-/
import ZohoOs.Kmalloc.Safety

namespace ZohoOs

open ZohoOs.Lib

/-! ## §1. Programs. -/

/-- What `kmalloc` answered: the pointer, and the bytes it was asked for. -/
structure Grant where
  ptr : Word
  size : Nat

/-- A program: with the fuel of the list walks, from a heap to a result, the
    heap after it, and the grants it stored through, oldest first. -/
def HeapM (α : Type) : Type := Nat → Heap → Option (α × Heap × List Grant)

namespace HeapM

variable {α β : Type}

instance : Monad HeapM where
  pure a := fun _ h => some (a, h, [])
  bind x f := fun fuel h =>
    (x fuel h).bind fun r => (f r.1 fuel r.2.1).map fun r' => (r'.1, r'.2.1, r.2.2 ++ r'.2.2)

theorem bind_apply (x : HeapM α) (f : α → HeapM β) (fuel : Nat) (h : Heap) :
    (x >>= f) fuel h =
      (x fuel h).bind fun r => (f r.1 fuel r.2.1).map fun r' => (r'.1, r'.2.1, r.2.2 ++ r'.2.2) := rfl

theorem map_id (x : HeapM α) : id <$> x = x := by
  funext fuel h
  show (x fuel h).bind (fun r => some (r.1, r.2.1, r.2.2 ++ [])) = x fuel h
  cases x fuel h with
  | none => rfl
  | some r => rw [Option.bind_some, List.append_nil]

theorem pure_bind_eq (a : α) (f : α → HeapM β) : pure a >>= f = f a := by
  funext fuel h
  show (f a fuel h).map (fun r => (r.1, r.2.1, [] ++ r.2.2)) = f a fuel h
  cases f a fuel h with
  | none => rfl
  | some r => rfl

theorem bind_bind_eq {γ : Type} (x : HeapM α) (f : α → HeapM β) (g : β → HeapM γ) :
    x >>= f >>= g = x >>= fun a => f a >>= g := by
  funext fuel h
  simp only [bind_apply]
  cases x fuel h with
  | none => rfl
  | some r =>
    simp only [Option.bind_some]
    cases f r.1 fuel r.2.1 with
    | none => rfl
    | some r' =>
      simp only [Option.map_some, Option.bind_some, Option.map_map]
      cases g r'.1 fuel r'.2.1 with
      | none => rfl
      | some r'' => simp

instance : LawfulMonad HeapM := LawfulMonad.mk' HeapM map_id pure_bind_eq bind_bind_eq

/-- `kmalloc(n)`. -/
def kmalloc (n : Word) : HeapM Grant := fun fuel h =>
  (ZohoOs.kmalloc fuel h n).map fun r => (⟨r.1, n.toNat⟩, r.2, [])

/-- `kfree`. -/
def kfree (p : Grant) : HeapM Unit := fun fuel h =>
  (ZohoOs.kfree fuel h p.ptr).map fun h' => ((), h', [])

/-- Store `len` bytes, `offset` bytes into the block of `p`. -/
def store (p : Grant) (offset : Int) (len : Nat) : HeapM Unit := fun _ h =>
  if len = 0 then some ((), h, [])
  else if 0 ≤ offset ∧ offset + len ≤ p.size then some ((), h, [p])
  else none

/-- The outcome of a sequence. -/
theorem bind_eq_some {x : HeapM α} {f : α → HeapM β} {fuel : Nat} {h h' : Heap} {b : β}
    {log : List Grant} (hret : (x >>= f) fuel h = some (b, h', log)) :
    ∃ a h₁ log₁ log₂, x fuel h = some (a, h₁, log₁) ∧ f a fuel h₁ = some (b, h', log₂) := by
  rw [bind_apply] at hret
  obtain ⟨⟨a, h₁, log₁⟩, hx, hret⟩ := Option.bind_eq_some_iff.mp hret
  obtain ⟨⟨b', h₂, log₂⟩, hf, heq⟩ := Option.map_eq_some_iff.mp hret
  obtain ⟨rfl, rfl, -⟩ : b' = b ∧ h₂ = h' ∧ log₁ ++ log₂ = log := by simpa using heq
  exact ⟨a, h₁, log₁, log₂, hx, hf⟩

theorem kmalloc_eq_some {n : Word} {fuel : Nat} {h h' : Heap} {p : Grant} {log : List Grant}
    (hret : kmalloc n fuel h = some (p, h', log)) :
    ZohoOs.kmalloc fuel h n = some (p.ptr, h') := by
  obtain ⟨⟨ptr, h₁⟩, hk, heq⟩ := Option.map_eq_some_iff.mp hret
  obtain ⟨rfl, rfl, -⟩ : (⟨ptr, n.toNat⟩ : Grant) = p ∧ h₁ = h' ∧ [] = log := by simpa using heq
  exact hk

theorem store_eq_some {p : Grant} {offset : Int} {len fuel : Nat} {h h' : Heap} {u : Unit}
    {log : List Grant} (hret : store p offset len fuel h = some (u, h', log)) : h' = h := by
  unfold store at hret
  split_ifs at hret <;> simp_all

/-! ## §2. What is required of a program. -/

/-- With enough fuel `x` ends, without a store through `NULL`, and `Q` holds
    of its result and the heap it leaves. -/
def Handles (Q : α → Heap → Prop) (x : HeapM α) (h : Heap) : Prop :=
  ∃ fuel₀, ∀ fuel, fuel₀ ≤ fuel →
    ∃ a h' log, x fuel h = some (a, h', log) ∧ (∀ p ∈ log, p.ptr ≠ 0) ∧ Q a h'

variable {Q : β → Heap → Prop} {h : Heap}

theorem handles_pure (b : β) : Handles Q (pure b) h ↔ Q b h := by
  constructor
  · intro hx
    obtain ⟨fuel₀, hx⟩ := hx
    obtain ⟨a, h', log, hret, -, hQ⟩ := hx fuel₀ (Nat.le_refl _)
    obtain ⟨rfl, rfl, -⟩ : b = a ∧ h = h' ∧ [] = log := by
      simpa [pure] using hret
    exact hQ
  · intro hQ
    exact ⟨0, fun fuel _ => ⟨b, h, [], rfl, by simp, hQ⟩⟩

/-- One statement, and the rest of the program: the statement returns `a` and
    the heap `h₁` from some fuel on. -/
theorem handles_bind_of_eq {x : HeapM α} {f : α → HeapM β} {a : α} {h₁ : Heap} {log₁ : List Grant}
    {bound : Nat} (hx : ∀ fuel, bound ≤ fuel → x fuel h = some (a, h₁, log₁)) :
    Handles Q (x >>= f) h ↔ (∀ p ∈ log₁, p.ptr ≠ 0) ∧ Handles Q (f a) h₁ := by
  have hbind : ∀ fuel, bound ≤ fuel → (x >>= f) fuel h
      = (f a fuel h₁).map fun r => (r.1, r.2.1, log₁ ++ r.2.2) := by
    intro fuel hfuel
    rw [bind_apply, hx fuel hfuel, Option.bind_some]
  constructor
  · intro hxf
    obtain ⟨fuel₀, hxf⟩ := hxf
    have hrest : ∀ fuel, fuel₀ ≤ fuel → bound ≤ fuel → ∃ b h' log, f a fuel h₁ = some (b, h', log) ∧
        (∀ p ∈ log₁ ++ log, p.ptr ≠ 0) ∧ Q b h' := by
      intro fuel hfuel hbound
      obtain ⟨b, h', log, hret, hlog, hQ⟩ := hxf fuel hfuel
      rw [hbind fuel hbound] at hret
      obtain ⟨⟨b', h'', log'⟩, hf, heq⟩ := Option.map_eq_some_iff.mp hret
      obtain ⟨rfl, rfl, rfl⟩ : b' = b ∧ h'' = h' ∧ log₁ ++ log' = log := by simpa using heq
      exact ⟨b', h'', log', hf, hlog, hQ⟩
    constructor
    · obtain ⟨_, _, log, -, hlog, -⟩ :=
        hrest (max fuel₀ bound) (Nat.le_max_left _ _) (Nat.le_max_right _ _)
      exact fun p hp => hlog p (List.mem_append_left log hp)
    · refine ⟨max fuel₀ bound, fun fuel hfuel => ?_⟩
      obtain ⟨b, h', log, hf, hlog, hQ⟩ := hrest fuel (by omega) (by omega)
      exact ⟨b, h', log, hf, fun p hp => hlog p (List.mem_append_right _ hp), hQ⟩
  · intro hxf
    obtain ⟨hlog₁, fuel₀, hf⟩ := hxf
    refine ⟨max fuel₀ bound, fun fuel hfuel => ?_⟩
    obtain ⟨b, h', log, hret, hlog, hQ⟩ := hf fuel (by omega)
    refine ⟨b, h', log₁ ++ log, ?_, ?_, hQ⟩
    · rw [hbind fuel (by omega), hret, Option.map_some]
    · intro p hp
      rcases List.mem_append.mp hp with hp | hp
      · exact hlog₁ p hp
      · exact hlog p hp

/-- **A store** has to stay inside its block and must not go through `NULL`. -/
theorem handles_store (p : Grant) (offset : Int) (len : Nat) (f : Unit → HeapM β) :
    Handles Q (store p offset len >>= f) h ↔
      (len ≠ 0 → p.ptr ≠ 0 ∧ 0 ≤ offset ∧ offset + len ≤ p.size) ∧ Handles Q (f ()) h := by
  by_cases hlen : len = 0
  · have hret : ∀ fuel, 0 ≤ fuel → store p offset len fuel h = some ((), h, []) :=
      fun fuel _ => if_pos hlen
    rw [handles_bind_of_eq hret]
    simp [hlen]
  · by_cases hin : 0 ≤ offset ∧ offset + len ≤ p.size
    · have hret : ∀ fuel, 0 ≤ fuel → store p offset len fuel h = some ((), h, [p]) := by
        intro fuel _
        unfold store
        rw [if_neg hlen, if_pos hin]
      rw [handles_bind_of_eq hret]
      simp [hlen, hin]
    · refine iff_of_false (fun hx => ?_) (fun hx => hin (hx.1 hlen).2)
      obtain ⟨fuel₀, hx⟩ := hx
      obtain ⟨b, h', log, hret, -⟩ := hx fuel₀ (Nat.le_refl _)
      rw [bind_apply, store, if_neg hlen, if_neg hin] at hret
      cases hret

theorem handles_store_inside {p : Grant} {offset : Int} {len : Nat} (f : Unit → HeapM β)
    (hp : p.ptr ≠ 0) (hlow : 0 ≤ offset) (hhigh : offset + len ≤ p.size) :
    Handles Q (store p offset len >>= f) h ↔ Handles Q (f ()) h := by
  rw [handles_store]
  exact and_iff_right fun _ => ⟨hp, hlow, hhigh⟩

/-- A store through `NULL` is not handled. -/
theorem not_handles_null {n : Nat} (offset : Int) {len : Nat} (hlen : len ≠ 0) (f : Unit → HeapM β) :
    ¬ Handles Q (store ⟨0, n⟩ offset len >>= f) h := by
  rw [handles_store]
  exact fun hx => (hx.1 hlen).1 rfl

end HeapM

/-! ## §3. Blocks, one after another. -/

/-- First fit has a block for each request, in this order. -/
def Serves : List Nat → List Block → Prop
  | [], _ => True
  | n :: ns, bs =>
      match firstFit (roundUp8 n) heapStart.toNat bs with
      | none => False
      | some r => Serves ns r.2

instance decidableServes : (ns : List Nat) → (bs : List Block) → Decidable (Serves ns bs)
  | [], _ => .isTrue trivial
  | n :: ns, bs =>
      match h : firstFit (roundUp8 n) heapStart.toNat bs with
      | none => .isFalse (by unfold Serves; rw [h]; exact id)
      | some r =>
          match decidableServes ns r.2 with
          | .isTrue hs => .isTrue (by unfold Serves; rw [h]; exact hs)
          | .isFalse hs => .isFalse (by unfold Serves; rw [h]; exact hs)

theorem serves_cons_of_some {n x : Nat} {ns : List Nat} {bs bs' : List Block}
    (hfit : firstFit (roundUp8 n) heapStart.toNat bs = some (x, bs')) :
    Serves (n :: ns) bs ↔ Serves ns bs' := by
  rw [Serves, hfit]

theorem not_serves_of_none {n : Nat} {ns : List Nat} {bs : List Block}
    (hnone : firstFit (roundUp8 n) heapStart.toNat bs = none) : ¬ Serves (n :: ns) bs := by
  rw [Serves, hnone]
  exact id

namespace HeapM

section Kmalloc

variable {β : Type} {Q : β → Heap → Prop} {h : Heap}

variable {live : Word → Option Nat} {bs : List Block} {n : Word} {f : Grant → HeapM β} {c : Prop}

/-- **`kmalloc` and the rest of the program.**  The rest goes on with `NULL`
    and the same blocks, or with a pointer that was not live before. -/
theorem handles_kmalloc (hI : HeapSystem.Inv ⟨h, live⟩ bs) (hn : n.toNat ≤ 2 ^ 64 - 8)
    (refused : firstFit (roundUp8 n.toNat) heapStart.toNat bs = none →
      ∀ h', HeapSystem.Inv ⟨h', live⟩ bs → (Handles Q (f ⟨0, n.toNat⟩) h' ↔ c))
    (served : ∀ x bs', firstFit (roundUp8 n.toNat) heapStart.toNat bs = some (x, bs') →
      ∀ p h', p ≠ 0 → live p = none → HeapSystem.Inv ⟨h', liveKmalloc live p n⟩ bs' →
        (Handles Q (f ⟨p, n.toNat⟩) h' ↔ c)) :
    Handles Q (HeapM.kmalloc n >>= f) h ↔ c := by
  obtain ⟨p, h', hret, -, -, hfresh⟩ := hI.next_kmalloc hn
  have hcall : ∀ fuel, bs.length + 1 ≤ fuel →
      HeapM.kmalloc n fuel h = some (⟨p, n.toNat⟩, h', []) := by
    intro fuel hfuel
    unfold HeapM.kmalloc
    rw [hret fuel hfuel, Option.map_some]
  rw [handles_bind_of_eq hcall]
  simp only [List.not_mem_nil, false_implies, implies_true, true_and]
  rcases hI.kmalloc_cases hn (hret _ (Nat.lt_succ_self _)) with ⟨rfl, hI'⟩ | ⟨x, bs', hfit, -, hp, hI'⟩
  · cases hfit : firstFit (roundUp8 n.toNat) heapStart.toNat bs with
    | none => exact refused hfit h' hI'
    | some r =>
      -- first fit found a block, so that the pointer is not `NULL`
      obtain ⟨x, bs'⟩ := r
      obtain ⟨h'', ht, hall⟩ := hI.tiled.kmalloc_some hn hfit
      have hnull := (hall _ (Nat.lt_succ_self _)).symm.trans (hret _ (Nat.lt_succ_self _))
      obtain ⟨⟨b, -, -, hmem⟩, -⟩ := firstFit_block hfit
      have hx := ht.toNat_payload hmem
      rw [(Prod.mk.inj (Option.some.inj hnull)).1] at hx
      exact absurd hx (by simp)
  · exact served x bs' hfit p h' hp hfresh hI'

/-- A block that the rest of the program is indifferent to. -/
theorem handles_kmalloc_unused (hI : HeapSystem.Inv ⟨h, live⟩ bs) (hn : n.toNat ≤ 2 ^ 64 - 8)
    (rest : ∀ p h', Handles Q (f p) h' ↔ c) : Handles Q (HeapM.kmalloc n >>= f) h ↔ c :=
  handles_kmalloc hI hn (fun _ h' _ => rest _ h') (fun _ _ _ _ h' _ _ _ => rest _ h')

/-- **A block that the rest of the program cannot do without**, next to what
    else the rest requires. -/
theorem handles_kmalloc_needed_and (hI : HeapSystem.Inv ⟨h, live⟩ bs) (hn : n.toNat ≤ 2 ^ 64 - 8)
    {l : List Nat} (hnull : ∀ h', HeapSystem.Inv ⟨h', live⟩ bs → ¬ Handles Q (f ⟨0, n.toNat⟩) h')
    (served : ∀ p bs' h', p ≠ 0 → live p = none → HeapSystem.Inv ⟨h', liveKmalloc live p n⟩ bs' →
      (Handles Q (f ⟨p, n.toNat⟩) h' ↔ c ∧ Serves l bs')) :
    Handles Q (HeapM.kmalloc n >>= f) h ↔ c ∧ Serves (n.toNat :: l) bs := by
  refine handles_kmalloc hI hn ?_ ?_
  · intro hnone h' hI'
    exact iff_of_false (hnull h' hI') fun hs => not_serves_of_none hnone hs.2
  · intro x bs' hfit p h' hp hfresh hI'
    rw [serves_cons_of_some hfit]
    exact served p bs' h' hp hfresh hI'

theorem handles_kmalloc_needed (hI : HeapSystem.Inv ⟨h, live⟩ bs) (hn : n.toNat ≤ 2 ^ 64 - 8)
    {l : List Nat} (hnull : ∀ h', HeapSystem.Inv ⟨h', live⟩ bs → ¬ Handles Q (f ⟨0, n.toNat⟩) h')
    (served : ∀ p bs' h', p ≠ 0 → live p = none → HeapSystem.Inv ⟨h', liveKmalloc live p n⟩ bs' →
      (Handles Q (f ⟨p, n.toNat⟩) h' ↔ Serves l bs')) :
    Handles Q (HeapM.kmalloc n >>= f) h ↔ Serves (n.toNat :: l) bs := by
  rw [handles_kmalloc_needed_and (c := True) hI hn hnull, true_and]
  intro p bs' h' hp hfresh hI'
  rw [true_and]
  exact served p bs' h' hp hfresh hI'

/-- `kfree` of a live block and the rest of the program. -/
theorem handles_kfree {p : Grant} {g : Unit → HeapM β} (hI : HeapSystem.Inv ⟨h, live⟩ bs)
    (hlive : (live p.ptr).isSome)
    (rest : ∀ bs' h', HeapSystem.Inv ⟨h', liveKfree live p.ptr⟩ bs' → (Handles Q (g ()) h' ↔ c)) :
    Handles Q (HeapM.kfree p >>= g) h ↔ c := by
  obtain ⟨h', bs', hret, hI'⟩ := hI.kfree (.inr hlive)
  have hcall : ∀ fuel, bs.length + 1 ≤ fuel → HeapM.kfree p fuel h = some ((), h', []) := by
    intro fuel hfuel
    unfold HeapM.kfree
    rw [hret fuel hfuel, Option.map_some]
  rw [handles_bind_of_eq hcall]
  simp only [List.not_mem_nil, false_implies, implies_true, true_and]
  exact rest bs' h' hI'

end Kmalloc

end HeapM

end ZohoOs
