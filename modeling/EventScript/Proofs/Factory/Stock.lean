import EventScript.Factory.Basic
import EventScript.Proofs.Program.Flow
import Mathlib.Algebra.Ring.Nat

/-!
# The stock of a pool

A pool keeps nothing but recycled instances, each filed under its kind, so what it hands out
is the same whether it was kept or is new: `Pool.Clean` holds of every pool that acquisitions
and releases lead to. `Pool.Lends` counts the instances that are out: one more with every
acquisition, one less with every release. A factory takes one instance for each command that
it makes, and puts back all of them where it rejects a program.
-/

namespace EventScript

/-- No kind is listed twice. -/
theorem Kind.nodup_all : Kind.all.Nodup := by decide

private theorem sum_all_of_ne {f g : Kind → Nat} {k : Kind} (h : ∀ k' ≠ k, f k' = g k') :
    (Kind.all.map f).sum + g k = (Kind.all.map g).sum + f k := by
  have hperm := List.perm_cons_erase k.mem_all
  have hf := (hperm.map f).sum_nat
  have hg := (hperm.map g).sum_nat
  have hrest : (Kind.all.erase k).map f = (Kind.all.erase k).map g :=
    List.map_congr_left fun k' hk' => h k' (Kind.nodup_all.mem_erase_iff.mp hk').1
  rw [List.map_cons, List.sum_cons] at hf hg
  rw [hf, hg, hrest]
  omega

namespace Pool

/-- The pool with other idle instances of a kind. -/
def stock (p : Pool) (k : Kind) (cs : List Command) : Pool :=
  { p with free := p.free.insert k cs }

/-- A restock of one kind leaves the instances of the others alone. -/
theorem idle_stock (p : Pool) (k k' : Kind) (cs : List Command) :
    (p.stock k cs).idle k' = if k = k' then cs else p.idle k' := by
  rw [idle, Table.findD, stock, Table.find?_insert]
  split <;> rfl

/-- What an acquisition can be. -/
theorem acquire_cases (p : Pool) (k : Kind) :
    (p.idle k = [] ∧
      p.acquire k = (.ofAction (.default k), { p with acquired := p.acquired + 1 })) ∨
    ∃ c rest, p.idle k = c :: rest ∧
      p.acquire k = (c, { p.stock k rest with acquired := p.acquired + 1
                                              reused := p.reused + 1 }) := by
  unfold acquire
  cases h : p.idle k with
  | nil => exact .inl ⟨rfl, rfl⟩
  | cons c rest => exact .inr ⟨c, rest, rfl, rfl⟩

/-- What a release can be. -/
theorem release_cases (p : Pool) (c : Command) :
    (p.idleCount c.kind < p.capacity ∧
      p.release c = p.stock c.kind (c.recycle :: p.idle c.kind)) ∨
    p.release c = { p with discarded := p.discarded + 1 } := by
  unfold release
  split
  · next h => exact .inl ⟨h, rfl⟩
  · exact .inr rfl

/-- A recycled instance is as good as new. -/
theorem recycle_eq (c : Command) : c.recycle = .ofAction (.default c.kind) := rfl

/-- A use of a pool. -/
inductive Use where
  | acquire (k : Kind)
  /-- An instance in any state may be put back, also one that is still executing. -/
  | release (c : Command)

/-- The pool after a use. -/
def use (p : Pool) : Use → Pool
  | .acquire k => (p.acquire k).2
  | .release c => p.release c

/-- The pool after uses in order. -/
def after (p : Pool) (uses : List Use) : Pool := uses.foldl use p

/-- Every idle instance is as good as new and filed under its kind. -/
def Clean (p : Pool) : Prop := ∀ k, ∀ c ∈ p.idle k, c = .ofAction (.default k)

namespace Clean

variable {p : Pool}

/-- A new pool keeps nothing. -/
theorem new (capacity : Nat) : (Pool.new capacity).Clean := by
  intro k c hc
  cases hc

/-- A restock with default instances keeps a pool clean. -/
theorem stock (h : p.Clean) {k : Kind} {cs : List Command}
    (hcs : ∀ c ∈ cs, c = .ofAction (.default k)) : (p.stock k cs).Clean := by
  intro k' c hc
  rw [idle_stock] at hc
  split at hc
  · next heq => exact heq ▸ hcs c hc
  · exact h k' c hc

/-- What a clean pool hands out does not tell whether it was kept or is new. -/
theorem acquire_fst (h : p.Clean) (k : Kind) : (p.acquire k).1 = .ofAction (.default k) := by
  rcases p.acquire_cases k with ⟨-, ha⟩ | ⟨c, rest, hidle, ha⟩ <;> rw [ha]
  exact h k c (hidle ▸ List.mem_cons_self)

/-- A clean pool stays clean when an instance is taken. -/
theorem acquire (h : p.Clean) (k : Kind) : (p.acquire k).2.Clean := by
  rcases p.acquire_cases k with ⟨-, ha⟩ | ⟨c, rest, hidle, ha⟩ <;> rw [ha]
  · exact h
  · exact h.stock fun c' hc' => h k c' (hidle ▸ List.mem_cons_of_mem c hc')

/-- It stays clean whatever is put back, since that is recycled first. -/
theorem release (h : p.Clean) (c : Command) : (p.release c).Clean := by
  rcases p.release_cases c with ⟨-, hr⟩ | hr <;> rw [hr]
  · apply h.stock
    intro c' hc'
    rcases List.mem_cons.mp hc' with rfl | hc'
    · exact recycle_eq c
    · exact h c.kind c' hc'
  · exact h

/-- So it does for several instances. -/
theorem releaseAll (h : p.Clean) (cs : List Command) : (p.releaseAll cs).Clean := by
  induction cs generalizing p with
  | nil => exact h
  | cons c rest ih => exact ih (h.release c)

/-- Every use keeps a pool clean. -/
theorem use (h : p.Clean) : (u : Use) → (p.use u).Clean
  | .acquire k => h.acquire k
  | .release c => h.release c

/-- So do uses in order. -/
theorem after (h : p.Clean) (uses : List Use) : (p.after uses).Clean := by
  induction uses generalizing p with
  | nil => exact h
  | cons u rest ih => exact ih (h.use u)

end Clean

/-- Number of idle instances of all kinds. -/
def idleTotal (p : Pool) : Nat := (Kind.all.map p.idleCount).sum

/-- No instance is idle in a new pool. -/
theorem idleTotal_new (capacity : Nat) : (Pool.new capacity).idleTotal = 0 := by
  have hempty : (Pool.new capacity).idleCount = fun _ => 0 := rfl
  rw [idleTotal, hempty]
  rfl

/-- A restock changes the total by what it changes of its kind. -/
theorem idleTotal_stock (p : Pool) (k : Kind) (cs : List Command) :
    (p.stock k cs).idleTotal + p.idleCount k = p.idleTotal + cs.length := by
  have hself : (p.stock k cs).idleCount k = cs.length := by
    rw [idleCount, idle_stock, if_pos rfl]
  have hother : ∀ k' ≠ k, (p.stock k cs).idleCount k' = p.idleCount k' := by
    intro k' hk'
    rw [idleCount, idle_stock, if_neg (Ne.symm hk'), idleCount]
  have hsum := sum_all_of_ne hother
  rwa [hself] at hsum

/-- A clean pool of a capacity that has `n` of its instances out. -/
structure Lends (capacity n : Nat) (p : Pool) : Prop where
  clean : p.Clean
  capacity_eq : p.capacity = capacity
  bounded : ∀ k, p.idleCount k ≤ capacity
  balance : p.acquired = p.reused + p.discarded + p.idleTotal + n

namespace Lends

variable {capacity n : Nat} {p : Pool}

/-- A new pool has lent nothing. -/
theorem new (capacity : Nat) : (Pool.new capacity).Lends capacity 0 where
  clean := .new capacity
  capacity_eq := rfl
  bounded _ := Nat.zero_le _
  balance := by rw [idleTotal_new]; rfl

private theorem bounded_stock (h : p.Lends capacity n) {k : Kind} {cs : List Command}
    (hcs : cs.length ≤ capacity) (k' : Kind) : (p.stock k cs).idleCount k' ≤ capacity := by
  rw [idleCount, idle_stock]
  split
  · exact hcs
  · exact h.bounded k'

/-- An acquisition takes one instance out. -/
theorem acquire (h : p.Lends capacity n) (k : Kind) : (p.acquire k).2.Lends capacity (n + 1) := by
  have hclean := h.clean.acquire k
  have hbalance := h.balance
  rcases p.acquire_cases k with ⟨-, ha⟩ | ⟨c, rest, hidle, ha⟩ <;> rw [ha] at hclean ⊢
  · refine ⟨hclean, h.capacity_eq, h.bounded, ?_⟩
    change p.acquired + 1 = p.reused + p.discarded + p.idleTotal + (n + 1)
    omega
  · have hcount : p.idleCount k = rest.length + 1 := by rw [idleCount, hidle, List.length_cons]
    have hroom := h.bounded k
    have htotal := p.idleTotal_stock k rest
    refine ⟨hclean, h.capacity_eq, h.bounded_stock (by omega), ?_⟩
    change p.acquired + 1 = p.reused + 1 + p.discarded + (p.stock k rest).idleTotal + (n + 1)
    omega

/-- A release brings one instance back, or drops it. -/
theorem release (h : p.Lends capacity (n + 1)) (c : Command) :
    (p.release c).Lends capacity n := by
  have hclean := h.clean.release c
  have hbalance := h.balance
  have hcapacity := h.capacity_eq
  rcases p.release_cases c with ⟨hroom, hr⟩ | hr <;> rw [hr] at hclean ⊢
  · have htotal := p.idleTotal_stock c.kind (c.recycle :: p.idle c.kind)
    rw [List.length_cons] at htotal
    rw [idleCount] at hroom htotal
    refine ⟨hclean, hcapacity, h.bounded_stock (by rw [List.length_cons]; omega), ?_⟩
    change p.acquired = p.reused + p.discarded + (p.stock _ _).idleTotal + n
    omega
  · refine ⟨hclean, hcapacity, h.bounded, ?_⟩
    change p.acquired = p.reused + (p.discarded + 1) + p.idleTotal + n
    omega

/-- All the instances that are put back are no longer out. -/
theorem releaseAll {cs : List Command} (h : p.Lends capacity (n + cs.length)) :
    (p.releaseAll cs).Lends capacity n := by
  induction cs generalizing p with
  | nil => exact h
  | cons c rest ih => exact ih (h.release c)

end Lends

end Pool

namespace Factory

variable {f : Factory} {capacity n : Nat}

/-- A created command is one instance out; a failed creation takes none. -/
theorem create_lends (h : f.pool.Lends capacity n) (d : Descriptor) :
    (f.create d).factory.pool.Lends capacity (n + (f.create d).result.toOption.toList.length) := by
  unfold create
  split
  · exact h
  · split
    · exact h
    · exact h.acquire _

/-- So it is with defaults in place of parameters. -/
theorem createOrDefault_lends (h : f.pool.Lends capacity n) (d : Descriptor) :
    (f.createOrDefault d).factory.pool.Lends capacity
      (n + (f.createOrDefault d).result.toList.length) := by
  have hcreated := create_lends h d
  unfold createOrDefault
  split
  · next created => rwa [created] at hcreated
  · next created => rwa [created] at hcreated
  · next created =>
    rw [created] at hcreated
    dsimp only
    split
    · exact hcreated
    · exact hcreated.acquire _

/-- Commands created from a list are as many instances out. -/
theorem createAll_lends (h : f.pool.Lends capacity n) (ds : List Descriptor) :
    (f.createAll ds).factory.pool.Lends capacity (n + (f.createAll ds).result.length) := by
  induction ds generalizing f n with
  | nil => exact h
  | cons d rest ih =>
    have hlater := ih (createOrDefault_lends h d)
    rw [Nat.add_assoc, ← List.length_append] at hlater
    exact hlater

/-- A program keeps its instances, and a rejected one puts all of them back. -/
theorem build_lends (h : f.pool.Lends capacity n) (ds : List Descriptor) (mode : Mode) :
    (f.build ds mode).factory.pool.Lends capacity
      (n + ((f.build ds mode).result.toOption.map Program.size).getD 0) := by
  have hmade := createAll_lends h (f.registry.admitted mode ds)
  unfold build
  dsimp only
  split
  · next p hp =>
    rw [← (Program.accepted_of_ofCommands hp).1] at hmade
    exact hmade
  · exact hmade.releaseAll

end Factory

end EventScript
