/-! Log records as data: a step answers with what it reports beside its value. -/
namespace InitializerLint

inductive Log.Level where
  | trace | debug | info | warn
deriving DecidableEq

def Log.Level.text : Level → String
  | .trace => "trace"
  | .debug => "debug"
  | .info => "info"
  | .warn => "warn"

structure Log.Record where
  level : Log.Level
  text : String
deriving DecidableEq

/-- A value together with the records reported on the way to it, in order. -/
structure Logged (α : Type) where
  value : α
  log : List Log.Record

namespace Logged

def silent {α : Type} (a : α) : Logged α := ⟨a, []⟩

/-- Report one record before everything `x` reports. -/
def after {α : Type} (level : Log.Level) (text : String) (x : Logged α) : Logged α :=
  ⟨x.value, ⟨level, text⟩ :: x.log⟩

def map {α β : Type} (f : α → β) (x : Logged α) : Logged β := ⟨f x.value, x.log⟩

def bind {α β : Type} (x : Logged α) (f : α → Logged β) : Logged β :=
  ⟨(f x.value).value, x.log ++ (f x.value).log⟩

@[simp] theorem value_silent {α : Type} (a : α) : (silent a).value = a := rfl
@[simp] theorem log_silent {α : Type} (a : α) : (silent a).log = [] := rfl

@[simp] theorem value_after {α : Type} (l : Log.Level) (t : String) (x : Logged α) :
    (after l t x).value = x.value := rfl

@[simp] theorem log_after {α : Type} (l : Log.Level) (t : String) (x : Logged α) :
    (after l t x).log = ⟨l, t⟩ :: x.log := rfl

@[simp] theorem value_bind {α β : Type} (x : Logged α) (f : α → Logged β) :
    (x.bind f).value = (f x.value).value := rfl

@[simp] theorem log_bind {α β : Type} (x : Logged α) (f : α → Logged β) :
    (x.bind f).log = x.log ++ (f x.value).log := rfl

end Logged
end InitializerLint
