import Mathlib

set_option autoImplicit false

/-! Programs that talk to a shared state one operation at a time, so that other parties may act
between any two operations, and a rule of pre- and postconditions for them over a ghost state. -/

namespace Fips

inductive Program (Op : Type) (Result : Op → Type) (α : Type) where
  | done (a : α)
  | ask (op : Op) (next : Result op → Program Op Result α)

namespace Program

variable {Op : Type} {Result : Op → Type} {α β : Type}

def bind : Program Op Result α → (α → Program Op Result β) → Program Op Result β
  | .done a,f => f a
  | .ask op next,f => .ask op fun r => (next r).bind f

instance : Monad (Program Op Result) where
  pure := .done
  bind := Program.bind

def perform (op : Op) : Program Op Result (Result op) :=
  .ask op .done

@[simp] theorem done_bind (a : α) (f : α → Program Op Result β) : (.done a >>= f) = f a := rfl

@[simp] theorem ask_bind (op : Op) (next : Result op → Program Op Result α)
    (f : α → Program Op Result β) :
    ((.ask op next : Program Op Result α) >>= f) = .ask op fun r => next r >>= f := rfl

/-- What a party promises about each operation it asks for, and what it may rely on afterwards. -/
structure Contract (Op : Type) (Result : Op → Type) (G : Type) where
  pre : Op → G → Prop
  rel : (op : Op) → G → Result op → G → Prop

variable {G : Type}

/-- Whatever the operations answer, the program keeps the contract and ends in `post`. -/
def Meets (contract : Contract Op Result G) (post : α → G → Prop) : Program Op Result α → G → Prop
  | .done a,g => post a g
  | .ask op next,g =>
    contract.pre op g ∧ ∀ r g',contract.rel op g r g' → (next r).Meets contract post g'

variable {contract : Contract Op Result G} {post : α → G → Prop}

theorem Meets.mono {post' : α → G → Prop} (imp : ∀ a g,post a g → post' a g) :
    ∀ {p : Program Op Result α} {g : G},p.Meets contract post g → p.Meets contract post' g
  | .done a,g,h => imp a g h
  | .ask _ _,_,h => ⟨h.1,fun r g' related => (h.2 r g' related).mono imp⟩

theorem Meets.bind {q : α → G → Prop} {post : β → G → Prop} {f : α → Program Op Result β} :
    ∀ {p : Program Op Result α} {g : G},p.Meets contract q g →
      (∀ a g',q a g' → (f a).Meets contract post g') → (p >>= f).Meets contract post g
  | .done a,g,h,next => next a g h
  | .ask _ _,_,h,next => ⟨h.1,fun r g' related => (h.2 r g' related).bind next⟩

end Program

end Fips
