/-!
# Asynchronous operations on buffers

A program starts operations on buffers through one request handle and waits for them; between start and
completion the buffer belongs to the operation. A trace of such a program is judged by what is pending
when each of its operations happens.
-/

namespace Requests

variable {β : Type}

inductive Op (β : Type)
  | start (buffer : β)      -- an operation on the buffer is started and its request overwrites the handle
  | complete                -- the operation behind the handle is found to be complete
  | touch (buffer : β)      -- the program accesses the buffer
  | inspect                 -- the program uses what the completed operation has reported
  | outstanding (n : Nat)   -- a point at which exactly `n` operations should be pending
deriving DecidableEq, Repr

/-- The buffers of pending operations, the one behind the handle first. -/
def step (pending : List β) : Op β → List β
  | .start buffer => buffer :: pending
  | .complete => pending.tail
  | _ => pending

def after (pending : List β) (ops : List (Op β)) : List β := ops.foldl step pending

/-- At most one operation is pending and no buffer is touched that belongs to one. -/
def Exclusive (pending : List β) : Op β → Prop
  | .start _ => pending = []
  | .touch buffer => buffer ∉ pending
  | .outstanding n => pending.length = n
  | _ => True

/-- Reports are used, buffers are touched and the next operation is started only after completion. -/
def Arrived (pending : List β) : Op β → Prop
  | .start _ => pending = []
  | .touch buffer => buffer ∉ pending
  | .inspect => pending = []
  | _ => True

/-- Every operation is allowed where it happens. -/
def Always (allowed : List β → Op β → Prop) : List β → List (Op β) → Prop
  | _, [] => True
  | pending, op :: rest => allowed pending op ∧ Always allowed (step pending op) rest

@[simp] theorem after_nil (pending : List β) : after pending [] = pending := rfl

@[simp] theorem after_cons (pending : List β) (op : Op β) (ops : List (Op β)) :
    after pending (op :: ops) = after (step pending op) ops := rfl

theorem after_append (pending : List β) (ops more : List (Op β)) :
    after pending (ops ++ more) = after (after pending ops) more :=
  List.foldl_append

variable {allowed : List β → Op β → Prop}

@[simp] theorem always_nil (pending : List β) : Always allowed pending [] := trivial

@[simp] theorem always_cons {pending : List β} {op : Op β} {ops : List (Op β)} :
    Always allowed pending (op :: ops) ↔ allowed pending op ∧ Always allowed (step pending op) ops :=
  Iff.rfl

theorem always_append {pending : List β} {ops more : List (Op β)} :
    Always allowed pending (ops ++ more) ↔ Always allowed pending ops ∧
    Always allowed (after pending ops) more := by
  induction ops generalizing pending with
  | nil => simp
  | cons op rest ih => simp only [List.cons_append, always_cons, after_cons, ih, and_assoc]

variable (allowed) in
theorem always_touches {pending : List β} {buffer : β} (free : buffer ∉ pending)
    (touching : ∀ pending : List β, buffer ∉ pending → allowed pending (.touch buffer)) (n : Nat) :
    Always allowed pending (List.replicate n (.touch buffer)) ∧
      after pending (List.replicate n (.touch buffer)) = pending := by
  induction n with
  | zero => exact ⟨trivial, rfl⟩
  | succ n ih =>
    rw [List.replicate_succ, always_cons, after_cons]
    exact ⟨⟨touching pending free, ih.1⟩, ih.2⟩

end Requests
