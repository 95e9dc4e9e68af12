import Aerogel.Foundations.ByteMemory
import Mathlib.Data.Set.Insert
import Mathlib.Logic.Function.Basic

/-! # Programs that log their memory accesses

A `Logged ε α` is a result, or the reason why there is none, with the accesses to memory made on the way.
Forgetting the log is compatible with sequencing (`result_bind`), so that a logged program is compared with
the plain one part by part. `Clean` is what a log should look like: reads find bytes that hold something,
writes stay inside a buffer. -/

namespace Aerogel

/-- One access to a byte of memory. -/
inductive Access
  /-- The byte at `a` is read. -/
  | read (a : Nat)
  /-- The byte at `a` is written. -/
  | write (a : Nat)
  deriving DecidableEq, Repr

/-- The address of an access. -/
def Access.addr : Access → Nat
  | .read a => a
  | .write a => a

/-- A result with the accesses that led to it. -/
structure Logged (ε α : Type) where
  /-- The accesses, oldest first. -/
  log : List Access
  /-- The result. -/
  result : Except ε α

namespace Logged

variable {ε α β : Type}

/-- Stop without a result. -/
def fail (e : ε) : Logged ε α := ⟨[], .error e⟩

/-- One program after the other; the second one is not run when the first one has no result. -/
def seq (x : Logged ε α) (f : α → Logged ε β) : Logged ε β :=
  match x.result with
  | .ok a => ⟨x.log ++ (f a).log, (f a).result⟩
  | .error e => ⟨x.log, .error e⟩

instance : Monad (Logged ε) where
  pure a := ⟨[], .ok a⟩
  bind := seq

/-- Read a byte. -/
def load (m : Mem) (a : Nat) : Logged ε UInt8 := ⟨[.read a], .ok (m a)⟩

/-- Write a byte. -/
def store (m : Mem) (a : Nat) (v : UInt8) : Logged ε Mem := ⟨[.write a], .ok (Function.update m a v)⟩

@[simp] theorem log_pure (a : α) : (pure a : Logged ε α).log = [] := rfl

@[simp] theorem result_pure (a : α) : (pure a : Logged ε α).result = .ok a := rfl

/-- The result of a sequence does not depend on the log. -/
@[simp] theorem result_bind (x : Logged ε α) (f : α → Logged ε β) :
    (x >>= f).result = x.result >>= fun a => (f a).result := by
  obtain ⟨log, result⟩ := x
  cases result <;> rfl

/-- The log of a sequence whose first part has a result. -/
theorem log_bind {x : Logged ε α} {a : α} (h : x.result = .ok a) (f : α → Logged ε β) :
    (x >>= f).log = x.log ++ (f a).log := by
  obtain ⟨log, result⟩ := x
  obtain rfl : result = .ok a := h
  rfl

@[simp] theorem log_load_bind (m : Mem) (a : Nat) (f : UInt8 → Logged ε β) :
    (load m a >>= f).log = .read a :: (f (m a)).log := rfl

@[simp] theorem result_load_bind (m : Mem) (a : Nat) (f : UInt8 → Logged ε β) :
    (load m a >>= f).result = (f (m a)).result := rfl

@[simp] theorem log_store_bind (m : Mem) (a : Nat) (v : UInt8) (f : Mem → Logged ε β) :
    (store m a v >>= f).log = .write a :: (f (Function.update m a v)).log := rfl

@[simp] theorem result_store_bind (m : Mem) (a : Nat) (v : UInt8) (f : Mem → Logged ε β) :
    (store m a v >>= f).result = (f (Function.update m a v)).result := rfl

end Logged

/-- What was logged first stays in front. -/
theorem Logged.log_prefix_bind {ε α β : Type} (x : Logged ε α) (f : α → Logged ε β) :
    x.log <+: (x >>= f).log := by
  obtain ⟨log, result⟩ := x
  cases result with
  | error e => exact List.prefix_rfl
  | ok a => exact List.prefix_append ..

/-! ## Accesses in a range -/

/-- All accesses are to addresses from `lo` to `hi`, exclusive. -/
def Within (lo hi : Nat) (log : List Access) : Prop := ∀ x ∈ log, lo ≤ x.addr ∧ x.addr < hi

@[simp] theorem within_nil (lo hi : Nat) : Within lo hi [] := fun _ hx => absurd hx List.not_mem_nil

@[simp] theorem within_cons {lo hi : Nat} {x : Access} {log : List Access} :
    Within lo hi (x :: log) ↔ (lo ≤ x.addr ∧ x.addr < hi) ∧ Within lo hi log := List.forall_mem_cons

@[simp] theorem within_append {lo hi : Nat} {log log' : List Access} :
    Within lo hi (log ++ log') ↔ Within lo hi log ∧ Within lo hi log' := List.forall_mem_append

theorem Within.mono {lo lo' hi hi' : Nat} {log : List Access} (h : Within lo hi log) (hlo : lo' ≤ lo)
    (hhi : hi ≤ hi') : Within lo' hi' log :=
  fun x hx => ⟨hlo.trans (h x hx).1, (h x hx).2.trans_le hhi⟩

/-! ## Clean logs -/

/-- A log is clean from a set of bytes that hold something: every read is of such a byte or of one written
before, and every write is in the buffer from `lo` to `hi`. -/
def Clean (lo hi : Nat) : Set Nat → List Access → Prop
  | _, [] => True
  | known, .read a :: log => a ∈ known ∧ Clean lo hi known log
  | known, .write a :: log => (lo ≤ a ∧ a < hi) ∧ Clean lo hi (insert a known) log

/-- The bytes a log writes. -/
def written (log : List Access) : Set Nat := {a | .write a ∈ log}

variable {lo hi a : Nat} {known : Set Nat} {log log' : List Access}

/-- Cleanness goes along a log. -/
theorem clean_append :
    Clean lo hi known (log ++ log') ↔
      Clean lo hi known log ∧ Clean lo hi (known ∪ written log) log' := by
  induction log generalizing known with
  | nil => simp [Clean, written]
  | cons x log ih =>
      cases x with
      | read a =>
          have hwritten : written (.read a :: log) = written log := by
            ext b
            simp [written]
          simp only [List.cons_append, Clean, ih, hwritten, and_assoc]
      | write a =>
          have hwritten : known ∪ written (.write a :: log) = insert a known ∪ written log := by
            ext b
            simp only [written, Set.mem_union, Set.mem_ofPred_eq, List.mem_cons, Access.write.injEq,
              Set.mem_insert_iff]
            tauto
          simp only [List.cons_append, Clean, ih, hwritten, and_assoc]

/-- Reads of known bytes and writes to the buffer are clean, whatever their order. -/
theorem clean_of_mem (hread : ∀ a, .read a ∈ log → a ∈ known)
    (hwrite : ∀ a, .write a ∈ log → lo ≤ a ∧ a < hi) : Clean lo hi known log := by
  induction log generalizing known with
  | nil => trivial
  | cons x log ih =>
      have hwrite' : ∀ a, .write a ∈ log → lo ≤ a ∧ a < hi := fun a ha =>
        hwrite a (List.mem_cons_of_mem x ha)
      cases x with
      | read a =>
          exact ⟨hread a List.mem_cons_self,
            ih (fun b hb => hread b (List.mem_cons_of_mem _ hb)) hwrite'⟩
      | write a =>
          refine ⟨hwrite a List.mem_cons_self, ih (fun b hb => ?_) hwrite'⟩
          exact Set.mem_insert_of_mem a (hread b (List.mem_cons_of_mem _ hb))

/-- A read of a byte that is not known and was not written is not clean. -/
theorem not_clean_of_read (hknown : a ∉ known) (hlog : .write a ∉ log) :
    ¬ Clean lo hi known (log ++ .read a :: log') := by
  rw [clean_append]
  rintro ⟨-, hread, -⟩
  exact hread.elim hknown hlog

end Aerogel
