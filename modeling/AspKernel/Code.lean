import AspKernel.System
import AspKernel.Lib.Prog

/-! The functions above the kernel as programs. -/

namespace AspKernel.App
set_option autoImplicit true

/-- What a function calls; `exit` does not return. -/
inductive Op
  | svc (call : Call)
  | snsCtx
  | usTickerRead
  | exit

abbrev Op.Out : Op → Type
  | .svc _ => ER × AspKernel.Out
  | .snsCtx => Bool
  | .usTickerRead => BitVec 32
  | .exit => Empty

abbrev Code := Prog Op Op.Out

def svc (call : Call) : Code (ER × AspKernel.Out) := .call (.svc call) .ret
def snsCtx : Code Bool := .call .snsCtx .ret
def usTickerRead : Code (BitVec 32) := .call .usTickerRead .ret

/-- `error`, whose message is left out. -/
def error : Code α := .call .exit (nomatch ·)

/-- `assert`, which does nothing where `NDEBUG` is defined. -/
def assert (ndebug p : Bool) : Code Unit := if ndebug || p then pure () else error

/-- A call in task contexts and the one that takes its place in others. -/
def svcCtx (tsk int : Call) : Code (ER × AspKernel.Out) := do
  if ← snsCtx then svc int else svc tsk

/-- A function that makes one service call, of those in `C`, whose outcome gives the result, or
returns one of the results in `R` before. -/
inductive Tail (C : Call → Prop) (g : ER × AspKernel.Out → β) (R : β → Prop) : Code β → Prop
  | ret (hb : R b) : Tail C g R (.ret b)
  | svc (hc : C call) (hf : ∀ r, f r = .ret (g r)) : Tail C g R (.call (.svc call) f)
  | snsCtx (hf : ∀ b, Tail C g R (f b)) : Tail C g R (.call .snsCtx f)
  | exit : Tail C g R (.call .exit f)

theorem Tail.trace {C : Call → Prop} {g : ER × AspKernel.Out → β} {R : β → Prop}
    {p q : Code β} {l : List (Prog.Entry Op Op.Out τ)} (h : Tail C g R p) (ht : Prog.Trace p l q) :
    Tail C g R q ∨ ∃ l' call r t, l = l' ++ [⟨.svc call, r, t⟩] ∧ C call ∧ q = .ret (g r) := by
  induction ht with
  | nil => exact .inl h
  | @cons op r q l t k ht ih =>
    cases h with
    | svc hc hf =>
      rw [hf] at ht
      cases ht
      exact .inr ⟨[], _, _, _, rfl, hc, rfl⟩
    | snsCtx hf =>
      rcases ih (hf _) with hq | ⟨l', call, r, t, rfl, hc, hq⟩
      · exact .inl hq
      · exact .inr ⟨_ :: l', call, r, t, rfl, hc, hq⟩
    | exit => cases r

end AspKernel.App

namespace AspKernel

/-- What a call stores after a wait that has ended with a code. -/
def Call.woken (w : WInfo) (ercd : ER) : Call → Out
  | .rcvDtq _ | .trcvDtq _ _ => if ercd = E_OK then .data w.data else .none
  | .rcvPdq _ | .trcvPdq _ _ => if ercd = E_OK then .pridata w.data w.datapri else .none
  | .rcvMbx _ | .trcvMbx _ _ => if ercd = E_OK then .msg w.pkMsg else .none
  | .getMpf _ | .tgetMpf _ _ => if ercd = E_OK then .blk w.blk else .none
  | .waiFlg _ _ _ | .twaiFlg _ _ _ _ => if ercd = E_OK then .flgptn w.flgptn else .none
  | _ => .none

end AspKernel
