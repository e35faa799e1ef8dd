import AspKernel.State

namespace AspKernel
set_option autoImplicit true

abbrev TmevtHeap := BinHeap.Heap EVTTIM TmevtbPtr

/-- `EVTTIM_LT` and `EVTTIM_LE`: times are compared by their distance from `min_time`. -/
def evttimLt (minTime t1 t2 : EVTTIM) : Bool := (t1 - minTime).ult (t2 - minTime)
def evttimLe (minTime t1 t2 : EVTTIM) : Bool := (t1 - minTime).ule (t2 - minTime)

/-- The search upwards from a position; it takes fewer steps than the number of the position. -/
def tmevtUp (minTime : EVTTIM) : Nat → TmevtHeap → Nat → EVTTIM → TmevtHeap × Nat
  | 0, h, index, _ => (h, index)
  | n + 1, h, index, time =>
    if 1 < index then
      let parent := index / 2
      if evttimLe minTime (h.node parent).key time then (h, index)
      else tmevtUp minTime n (h.place index (h.node parent)) parent time
    else (h, index)

/-- The child of a position that comes first. -/
def tmevtChild (minTime : EVTTIM) (h : TmevtHeap) (index : Nat) : Nat :=
  let child := index * 2
  if child + 1 ≤ h.last ∧ evttimLt minTime (h.node (child + 1)).key (h.node child).key
  then child + 1 else child

/-- The search downwards from a position; it takes fewer steps than the heap has positions. -/
def tmevtDown (minTime : EVTTIM) : Nat → TmevtHeap → Nat → EVTTIM → TmevtHeap × Nat
  | 0, h, index, _ => (h, index)
  | n + 1, h, index, time =>
    if index * 2 ≤ h.last then
      let child := tmevtChild minTime h index
      if evttimLe minTime time (h.node child).key then (h, index)
      else tmevtDown minTime n (h.place index (h.node child)) child time
    else (h, index)

def tmevtbInsert (minTime : EVTTIM) (h : TmevtHeap) (p : TmevtbPtr) (time : EVTTIM) :
    TmevtHeap :=
  let h := { h with last := h.last + 1 }
  let r := tmevtUp minTime h.last h h.last time
  r.1.place r.2 ⟨time, p⟩

def tmevtbDelete (minTime : EVTTIM) (h : TmevtHeap) (p : TmevtbPtr) : TmevtHeap :=
  let index := h.index p
  let last := h.node h.last
  let h := { h with last := h.last - 1 }
  if h.last = 0 then h
  else
    let parent := index / 2
    let r :=
      if 1 < index ∧ evttimLt minTime last.key (h.node parent).key then
        tmevtUp minTime parent (h.place index (h.node parent)) parent last.key
      else tmevtDown minTime h.last h index last.key
    r.1.place r.2 last

def tmevtbDeleteTop (minTime : EVTTIM) (h : TmevtHeap) : TmevtHeap :=
  let last := h.node h.last
  let h := { h with last := h.last - 1 }
  if h.last = 0 then h
  else
    let r := tmevtDown minTime h.last h 1 last.key
    r.1.place r.2 last

namespace Timer

def baseTime (tm : Timer) : EVTTIM := tm.nextTime + (if tm.nextSubtime > 0 then 1 else 0)

/-- Both forms of `tmevtb_enqueue`: `d` is the relative time of the first form. -/
def register (tm : Timer) (p : TmevtbPtr) (time : EVTTIM) (cb : CBack) (d : Option RELTIM) :
    Timer :=
  { tm with
    heap := tmevtbInsert tm.minTime tm.heap p time
    callback := Function.update tm.callback p cb
    serials := tm.serials + 1
    reg := Function.update tm.reg p ⟨tm.serials, tm.ticks, d⟩ }

def tmevtbEnqueue (tm : Timer) (p : TmevtbPtr) (time : RELTIM) (cb : CBack) : Timer :=
  tm.register p (tm.baseTime + time) cb (some time)

def tmevtbEnqueueEvttim (tm : Timer) (p : TmevtbPtr) (time : EVTTIM) (cb : CBack) : Timer :=
  tm.register p time cb none

def tmevtbDequeue (tm : Timer) (p : TmevtbPtr) : Timer :=
  { tm with
    heap := tmevtbDelete tm.minTime tm.heap p
    removed := (tm.reg p).serial :: tm.removed
    dequeueOk := tm.dequeueOk && (tm.heap.lookup p).isSome }

/-- `tmevt_lefttim`. -/
def lefttim (tm : Timer) (p : TmevtbPtr) : RELTIM :=
  let time := (tm.heap.node (tm.heap.index p)).key
  if evttimLe tm.minTime time tm.nextTime then 0 else time - tm.baseTime

/-- `signal_time` up to its loop. -/
def sigBegin (nume deno : BitVec 32) (tm : Timer) : Timer :=
  let subtime := tm.nextSubtime + nume % deno
  let next := tm.nextTime + nume / deno
  { tm with
    currentTime := tm.nextTime
    nextTime := if deno ≤ subtime then next + 1 else next
    nextSubtime := if deno ≤ subtime then subtime - deno else subtime
    ticks := tm.ticks + 1
    fired := []
    removed := [] }

/-- The condition of the loop of `signal_time`. -/
def due (tm : Timer) : Bool :=
  decide (0 < tm.heap.last) && evttimLe tm.minTime (tm.heap.node 1).key tm.currentTime

/-- Take the first time event; its callback is still to be called. -/
def sigPop (tm : Timer) : Timer :=
  let top := tm.heap.node 1
  { tm with
    heap := tmevtbDeleteTop tm.minTime tm.heap
    fired := ⟨top.id, top.key, tm.callback top.id, tm.reg top.id⟩ :: tm.fired }

/-- The end of `signal_time`. -/
def sigEnd (tm : Timer) : Timer := { tm with minTime := tm.currentTime }

end Timer

end AspKernel
