import Mathlib.Data.Nat.Notation
import ClrDumper.CStrings
import ClrDumper.Execution

/-! `DllLoadCallback.cpp`: the registration of a callback for module loads with
the loader. The loader keeps its registrations whatever becomes of the code
behind them. -/
namespace ClrDumper.DllLoadCallback
open Execution CStrings

/-- The notifications registered with the loader, by their cookies. All are for
`LdrDllNotification`. -/
structure Loader where
  registrations : List ℕ
  /-- How many cookies were handed out. -/
  cookies : ℕ

/-- `LdrRegisterDllNotification`: one more registration, with a fresh cookie. -/
def Loader.register (loader : Loader) : Loader × ℕ :=
  ({ registrations := loader.registrations ++ [loader.cookies + 1], cookies := loader.cookies + 1 },
    loader.cookies + 1)

/-- `LdrUnregisterDllNotification`. -/
def Loader.unregister (loader : Loader) (cookie : ℕ) : Loader :=
  { loader with registrations := loader.registrations.erase cookie }

/-- The globals of the file. `C` is the type of the callbacks; a cookie of 0 is a
null pointer. -/
structure Notify (C : Type) where
  _callback : Option C
  cookie : ℕ
  /-- Whether `LdrUnRegisterDllNotification` was resolved. -/
  canUnregister : Bool

namespace Notify

variable {C : Type}

def new : Notify C := ⟨none, 0, false⟩

/-- `InitDllNotify`. Both functions that it resolves are exported by `ntdll.dll`. -/
def initDllNotify (n : Notify C) (loader : Loader) : Notify C × Loader :=
  let (loader, cookie) := loader.register
  ({ n with canUnregister := true, cookie }, loader)

/-- `DeInitDllNotify`. -/
def deInitDllNotify (n : Notify C) (loader : Loader) : Notify C × Loader :=
  if n.canUnregister then ({ n with cookie := 0 }, loader.unregister n.cookie) else (n, loader)

/-- `RegisterLoadDllCalback`. -/
def registerLoadDllCalback (n : Notify C) (loader : Loader) (callback : C) : Notify C × Loader :=
  { n with _callback := some callback }.initDllNotify loader

/-- `UnRegisterLoadDllCalback`. -/
def unRegisterLoadDllCalback (n : Notify C) (loader : Loader) : Notify C × Loader :=
  let (n, loader) := n.deInitDllNotify loader
  ({ n with _callback := none }, loader)

end Notify

/-- Why the loader notifies. -/
inductive Reason where
  | loaded
  | unloaded
  deriving DecidableEq

/-- `LdrDllNotification`: what it calls, if it calls anything. Calling a null
`_callback` is a fault. -/
def ldrDllNotification {C : Type} (n : Notify C) (reason : Reason) : Exec (Option C) :=
  match reason with
  | .loaded =>
    match n._callback with
    | some callback => .ok (some callback)
    | none => .error .access
  | .unloaded => .ok none

end ClrDumper.DllLoadCallback
