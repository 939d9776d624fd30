import Mathlib.Logic.Function.Basic
import SmIpc.Os.Base
import SmIpc.Sm.Message

/-! # The window list of `smscheduler.c`

The nodes of `smallwin_list` and the functions that add a node, look for one and remove one, over a
heap of nodes. `A` is the type of node addresses, with `none` for NULL; the heap gives each address
that is allocated its node. A step that reads or writes a node that is not allocated has no result,
and a loop that runs out of fuel has none either.

* `smAddSmallwinList`, `smCreateSmallwin` — append a node, and create a window.
* `smIsSmallwin` — look for a window.
* `smDestroySmallwin` — unlink a window and free it. -/

namespace SmIpc.Sm

universe u

variable {A : Type u}

/-- `SM_PROC`: a code address, `none` for NULL. -/
abbrev SmProc := Option ℕ

/-- `MAX_SM_TEXT_LEN`. -/
def maxSmTextLen : ℕ := 32

/-- `COMMON_SM`. -/
structure CommonSm (A : Type u) where
  /-- The window before in the list. -/
  prev : Option A
  /-- The window after in the list. -/
  next : Option A
  /-- The type given on creation. -/
  smType : UInt16
  /-- The id given on creation. -/
  smId : UInt16
  /-- The bytes of the text. -/
  smText : ℕ → UInt8
  /-- The window procedure. -/
  smProc : SmProc

/-- The memory of the window list: `smallwin_list` and the allocated nodes. -/
structure Windows (A : Type u) where
  /-- `smallwin_list`. -/
  smallwinList : Option A
  /-- The node at each allocated address. -/
  heap : A → Option (CommonSm A)

/-- No window yet. -/
def Windows.empty (A : Type u) : Windows A := ⟨none, fun _ => none⟩

section

variable [DecidableEq A]

/-- Write to the node at an address. -/
def Windows.modify (w : Windows A) (a : A) (f : CommonSm A → CommonSm A) : Option (Windows A) :=
  (w.heap a).map fun sm => { w with heap := Function.update w.heap a (some (f sm)) }

/-- The loop `while(temp->next) temp = temp->next`, from `temp`: where it stops. -/
def lastLoop (w : Windows A) : ℕ → A → Option A
  | 0, _ => none
  | fuel + 1, temp =>
      match w.heap temp with
      | none => none
      | some sm =>
          match sm.next with
          | none => some temp
          | some next => lastLoop w fuel next

/-- `sm_add_smallwin_list`. -/
def smAddSmallwinList (fuel : ℕ) (w : Windows A) (node : A) : Option (Windows A) :=
  match w.smallwinList with
  | some temp => do
      let temp ← lastLoop w fuel temp
      let w ← w.modify temp fun sm => { sm with next := some node }
      w.modify node fun sm => { sm with prev := some temp, next := none }
  | none => { w with smallwinList := some node }.modify node fun sm =>
      { sm with prev := none, next := none }

/-- The node after `memset` and the assignments of `sm_create_smallwin`; the text given is copied and
cut to end in 0. -/
def newCommonSm (smType smId : UInt16) (smText : Option (ℕ → UInt8)) (smProc : SmProc) :
    CommonSm A where
  prev := none
  next := none
  smType := smType
  smId := smId
  smText :=
    match smText with
    | none => fun _ => 0
    | some text => Function.update (Os.memcpy (fun _ => 0) 0 text maxSmTextLen) (maxSmTextLen - 1) 0
  smProc := smProc

/-- The part of `sm_create_smallwin` that fills the node `malloc` returned and links it. -/
def smLinkSmallwin (fuel : ℕ) (w : Windows A) (node : A) (sm : CommonSm A) : Option (Windows A) :=
  smAddSmallwinList fuel { w with heap := Function.update w.heap node (some sm) } node

/-- `sm_create_smallwin`, given what `malloc` returns; `hsmOf` is the cast of an address to `HSM`. The
result of `push_message` is ignored, and the address is returned. -/
def smCreateSmallwin (hsmOf : A → Hsm) (fuel : ℕ) (w : Windows A) (q : Msgq) (malloc : Option A)
    (smType smId : UInt16) (smText : Option (ℕ → UInt8)) (smProc : SmProc) :
    Option (Option A × Windows A × Msgq) :=
  match malloc with
  | none => some (none, w, q)
  | some node => do
      let w ← smLinkSmallwin fuel w node (newCommonSm smType smId smText smProc)
      some (some node, w, (pushMessage q (hsmOf node) smmCreate 0 0).2)

/-- The loop of `sm_is_smallwin`, from `temp`. -/
def isSmallwinLoop (w : Windows A) (smallwin : A) : ℕ → Option A → Option Bool
  | _, none => some false
  -- out of fuel before the end of the list
  | 0, some _ => none
  | fuel + 1, some temp =>
      if temp = smallwin then some true
      else
        match w.heap temp with
        | none => none
        | some sm => isSmallwinLoop w smallwin fuel sm.next

/-- `sm_is_smallwin`. -/
def smIsSmallwin (fuel : ℕ) (w : Windows A) (asmallwin : Option A) : Option Bool :=
  match asmallwin with
  | none => some false
  | some smallwin => isSmallwinLoop w smallwin fuel w.smallwinList

/-- `if(prev) prev->next = next; else smallwin_list = next;` for the links of a node. -/
def unlinkForward (w : Windows A) (sm : CommonSm A) : Option (Windows A) :=
  match sm.prev with
  | some prev => w.modify prev fun k => { k with next := sm.next }
  | none => some { w with smallwinList := sm.next }

/-- `if(next) next->prev = prev;` for the links of a node. -/
def unlinkBackward (w : Windows A) (sm : CommonSm A) : Option (Windows A) :=
  match sm.next with
  | some next => w.modify next fun k => { k with prev := sm.prev }
  | none => some w

/-- `sm_destroy_smallwin`; the links of the node are read again for the second `if`. -/
def smDestroySmallwin (w : Windows A) (hsm : Option A) : Option (Windows A) :=
  match hsm with
  | none => some w
  | some a => do
      let w ← unlinkForward w (← w.heap a)
      let w ← unlinkBackward w (← w.heap a)
      some { w with heap := Function.update w.heap a none }

end

end SmIpc.Sm
