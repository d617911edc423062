import Sherry.Model.Scheduler

/-!
# The network layer

The functions of the section "Sherry nonblock network stuff" of `sherry.c`. libuv is outside
the program: what one of its functions returns is an argument of the function that calls it,
and what it hands to a callback is an argument of the callback.
-/

namespace Sherry

variable {Q : Type → Type → Type} [ListStore Q] {φ : Type}

/-- `fdnew`; `allocated` says whether `srmalloc` returned memory. -/
def fdnew (s : State Q φ) (type : Int) (allocated : Bool) : State Q φ × Option FdRef :=
  if allocated then
    let fd := s.nfds
    ({ s with
        nfds := fd + 1
        fd := Function.update s.fd fd { type }
        waits := listInit (listInit s.waits (.waitq fd .read)) (.waitq fd .write) }, some fd)
  else (s, none)

/-- `fdfree`. -/
def fdfree (s : State Q φ) (fd : FdRef) : State Q φ :=
  let s :=
    match (s.fd fd).rbuf.base with
    | some base => s.srfree (.buf base)
    | none => s
  s.srfree (.fd fd)

/-- `close_cb`. -/
def closeCb (s : State Q φ) (fd : FdRef) : State Q φ := fdfree s fd

/-- `sherry_fd_close`: `uv_close` asserts that the handle is not closing already. -/
def sherryFdClose (s : State Q φ) (fd : FdRef) : Except Fault (State Q φ) :=
  if (s.fd fd).handle.closing then .error .assertFailed
  else .ok (s.setFd fd fun f => { f with handle := { f.handle with closing := true } })

/-- `block_fd`, whose `yield` returns to the given frame. -/
def blockFd (s : State Q φ) (self : ActorRef) (fd : FdRef) (event : Ev) (frame : Frame) :
    State Q φ :=
  let actor := s.running
  let s := s.setStatus actor .waitEv
  yield { s with waits := listEnqueue s.waits (.waitq fd event) actor } self frame

/-- `sherry_fd_tcp`. -/
def sherryFdTcp (s : State Q φ) (allocated : Bool) : State Q φ :=
  let (s, fd) := fdnew s fdTcp allocated
  s.emit (.opened fd)

/-- `listen_cb`, whose error branch is empty. -/
def listenCb (s : State Q φ) (server : FdRef) (_status : Int) : State Q φ :=
  unblockAll s (.waitq server .read)

/-- `sherry_listen`; `ret` is what `uv_listen` returns. -/
def sherryListen (s : State Q φ) (fd : Option FdRef) (ret : Int) : State Q φ :=
  match fd with
  | none => s.emit (.listened fd errInvalid)
  | some f =>
    if (s.fd f).type ≠ fdTcp then s.emit (.listened fd errInvalid)
    else
      let s :=
        if ret = 0 then
          s.setFd f fun g => { g with handle := { g.handle with listening := true } }
        else s
      s.emit (.listened fd ret)

/-- One iteration of the loop of `sherry_accept`; `err` is what `uv_accept` returns. -/
def sherryAccept (s : State Q φ) (self : ActorRef) (server client : FdRef) (err : Int) :
    State Q φ :=
  if err ≥ 0 ∨ err ≠ uvEagain then
    (s.setFrame self .user).emit (.accepted self server client err)
  else blockFd s self server .read (.accept server client)

/-- `rbuf_alloc`, whose memory holds `content` once libuv has used it; `allocated` says
whether `srmalloc` returned memory. -/
def rbufAlloc (s : State Q φ) (content : List UInt8) (allocated : Bool) : State Q φ × UvBuf :=
  if allocated then
    let b := s.nbufs
    ({ s with nbufs := b + 1, buf := Function.update s.buf b content },
      { base := some b, len := content.length })
  else (s, { base := none, len := content.length })

/-- `srfree(buf->base)`, which does nothing for `NULL`. -/
def freeBase (s : State Q φ) (base : Option BufRef) : State Q φ :=
  match base with
  | some b => s.srfree (.buf b)
  | none => s

/-- The bytes of a buffer. -/
def bytesOf (s : State Q φ) (base : Option BufRef) : List UInt8 :=
  match base with
  | some b => s.buf b
  | none => []

/-- `read_cb`. -/
def readCb (s : State Q φ) (fd : FdRef) (nread : Int) (buf : UvBuf) : State Q φ :=
  if nread ≤ 0 then
    freeBase (s.setFd fd fun f => { f with rerror := nread }) buf.base
  else
    let s := s.emit (.delivered fd ((bytesOf s buf.base).take nread.toNat))
    let s :=
      if (s.fd fd).rbuf.base.isSome then
        (freeBase s (s.fd fd).rbuf.base).setFd fd fun f => { f with rbuf := {}, roffset := 0 }
      else s
    unblockAll (s.setFd fd fun f => { f with rbuf := buf }) (.waitq fd .read)

/-- One iteration of the loop of `sherry_read`. -/
def readLoop (s : State Q φ) (self : ActorRef) (fd : FdRef) (count : Nat) : State Q φ :=
  let f := s.fd fd
  if f.rerror ≠ 0 then
    let ret := if f.rerror = uvEof then 0 else f.rerror
    (s.setFrame self .user).emit (.read self fd ret [])
  else if f.rbuf.base.isSome ∧ f.rbuf.len > f.roffset then
    let remain := f.rbuf.len - f.roffset
    let nread := if remain > count then count else remain
    let bytes := ((bytesOf s f.rbuf.base).drop f.roffset).take nread
    let s := s.setFd fd fun f => { f with roffset := f.roffset + nread }
    (s.setFrame self .user).emit (.read self fd nread bytes)
  else blockFd s self fd .read (.read fd count)

/-- `sherry_read`; `err` is what `uv_read_start` returns. -/
def sherryRead (s : State Q φ) (self : ActorRef) (fd : FdRef) (count : Nat) (err : Int) :
    State Q φ :=
  if err ≠ 0 then s.emit (.read self fd err [])
  else
    let s := s.setFd fd fun f => { f with handle := { f.handle with reading := true } }
    readLoop s self fd count

/-- `write_cb`. -/
def writeCb (s : State Q φ) (req : UvWrite) (status : Int) : Except Fault (State Q φ) :=
  let s := setready s req.data
  if status = 0 then .ok (s.emit (.written req.data req.fd status)) else .error .assertFailed

/-- `sherry_write` up to its `yield`; `ret` is what `uv_write` returns, and libuv keeps the
request when it returns zero. -/
def sherryWrite (s : State Q φ) (self : ActorRef) (fd : FdRef) (count : Nat) (ret : Int) :
    State Q φ :=
  let req : UvWrite := { fd, data := s.running }
  let s := s.emit (.submitted self fd ret)
  let s := if ret = 0 then { s with writes := s.writes ++ [req] } else s
  yield (s.setStatus s.running .waitEv) self (.write fd count)

/-- `sherry_write` after its `yield`. -/
def writeTail (s : State Q φ) (self : ActorRef) (fd : FdRef) (count : Nat) : State Q φ :=
  (s.setFrame self .user).emit (.wrote self fd count)

end Sherry
