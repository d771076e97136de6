import KernelDrvLearn.Blocks
import KernelDrvLearn.KernelApi
import KernelDrvLearn.Memory
import KernelDrvLearn.OpenFiles
import KernelDrvLearn.Transition

/-!
# The panic button

The life of a `struct usb_panicb` of `myusb/myusb.c`: `panicb_probe` with its
`error` label, `panicb_disconnect`, the completions of the interrupt URB, which
`panicb_int_callback` submits again, and the calls of the users, each taking its
own steps.

Of the USB core the following is relied on. A completion comes for an URB that
is in flight, of at most as many bytes as the URB has room for. From the start
of `usb_kill_urb` to its return, which waits for the flight and for the
callbacks, no submission is accepted; at other times any may be refused. The
core does not hold back a completion for the end of the callback that submitted
the URB again. The node can be opened from `usb_register_dev` to
`usb_deregister_dev`, which waits for the opens in progress (`minor_rwsem`).
-/

namespace KernelDrvLearn

namespace Panicb

/-- `REPORT_SIZE`, the size of `last_report`. -/
abbrev reportSize : ℕ := 8

/-! ## The data

The fields of the device and of the URB that the functions look at, with the functions on
them that touch no pointer. Arrays are lists of their elements, so that a copy beyond the
end would show in the length. -/

/-- `struct usb_endpoint_descriptor`, as far as the probe reads it. -/
structure UsbEndpointDescriptor where
  /-- `bEndpointAddress` -/
  bEndpointAddress : BitVec 8
  /-- `bmAttributes` -/
  bmAttributes : BitVec 8
  /-- `wMaxPacketSize` -/
  wMaxPacketSize : BitVec 16

/-- `usb_endpoint_maxp`, the size of a packet. -/
def usbEndpointMaxp (ep : UsbEndpointDescriptor) : ℕ := (ep.wMaxPacketSize &&& 0x07ff).toNat

/-- `usb_endpoint_is_int_in`: an interrupt endpoint, towards the host. -/
def usbEndpointIsIntIn (ep : UsbEndpointDescriptor) : Bool :=
  ep.bmAttributes &&& 0x03 = 0x03 && ep.bEndpointAddress &&& 0x80 = 0x80

/-- The fields of `struct usb_panicb` besides the pointers and the lock. -/
structure UsbPanicb where
  /-- `int_in_ep` -/
  intInEp : BitVec 8
  /-- `int_in_size` -/
  intInSize : ℕ
  /-- `last_report` -/
  lastReport : List Byte
  /-- `last_report_len` -/
  lastReportLen : ℕ
  /-- `button` -/
  button : BitVec 32

/-- What `kzalloc` returns: all fields zero. -/
def UsbPanicb.zero : UsbPanicb := ⟨0, 0, List.replicate reportSize 0, 0, 0⟩

/-- `memset` of the first `n` elements of an array. -/
def memset (dst : List Byte) (v : Byte) (n : ℕ) : List Byte := List.replicate n v ++ dst.drop n

/-- `memcpy` of the first `n` elements of an array. -/
def memcpy (dst src : List Byte) (n : ℕ) : List Byte := src.take n ++ dst.drop n

/-- `min_t(size_t, urb->actual_length, REPORT_SIZE)`, the bytes that are kept. -/
def reportLen (actualLength : ℕ) : ℕ := min actualLength reportSize

/-- What `panicb_int_callback` does under the lock: the report and the button. -/
def UsbPanicb.report (dev : UsbPanicb) (intInBuffer : List Byte) (actualLength : ℕ) : UsbPanicb :=
  let lastReportLen := reportLen actualLength
  let lastReport := memcpy (memset dev.lastReport 0 reportSize) intInBuffer lastReportLen
  { dev with
    lastReportLen := lastReportLen
    lastReport := lastReport
    button := if 0 < lastReportLen then ((lastReport[0]?).getD 0).setWidth 32 else 0 }

/-- The fields of `struct urb` that are used. -/
structure Urb where
  /-- is `context` not null? -/
  context : Bool
  /-- `transfer_buffer_length` -/
  transferBufferLength : ℕ
  /-- `status` -/
  status : Int
  /-- `actual_length` -/
  actualLength : ℕ

/-- What is allocated, in the order in which it is freed. -/
inductive Object where
  /-- the URB -/
  | intInUrb
  /-- its buffer -/
  | intInBuffer
  /-- the reference of `usb_get_dev` -/
  | udev
  /-- the `struct usb_panicb` -/
  | dev
  deriving DecidableEq

/-- Where it comes in that order, the structure with the pointers to the others last. -/
def Object.rank : Object → ℕ
  | intInUrb => 0
  | intInBuffer => 1
  | udev => 2
  | dev => 3

/-- What is freed next, behind this one. -/
def Object.next : Object → Option Object
  | intInUrb => some intInBuffer
  | intInBuffer => some udev
  | udev => some dev
  | dev => none

/-! ## The callback

`panicb_int_callback` in its steps. It may be called again before it has returned, as soon
as it has submitted the URB, so there can be several of it at a time. -/

/-- The next step of `panicb_int_callback`. -/
inductive Callback where
  /-- the test of `dev`, and the `switch` -/
  | start
  /-- `spin_lock_irqsave` -/
  | lock
  /-- the report -/
  | report
  /-- `spin_unlock_irqrestore` -/
  | unlock
  /-- the `pr_info` of the report -/
  | prInfo
  /-- `usb_submit_urb` -/
  | submit
  /-- the return -/
  | ret
  deriving DecidableEq

/-- What a step uses of the objects; `prInfo` reads the report after the unlock. -/
def Callback.uses : Callback → List Object
  | start | submit => [.intInUrb]
  | lock | unlock | prInfo => [.dev]
  | report => [.intInUrb, .intInBuffer, .dev]
  | ret => []

/-- Where the `switch` over the status leads. -/
def Urb.switch (urb : Urb) : Callback :=
  if urb.context = false then .ret
  else if urb.status = 0 then
    if urb.actualLength = 0 then .submit else .lock
  else if urb.status = enoent ∨ urb.status = econnreset ∨ urb.status = eshutdown then .ret
  else .submit

/-! ## The file operations

The driver's node offers one ioctl. It takes the pointer out of the file, tests it, and
goes on with it for four more steps. -/

/-- What a user asks for: an ioctl. -/
abbrev Op := BitVec 32

/-- `file->private_data`: null, or the device, once `panicb_open` has set it. -/
abbrev PrivateData := Option Unit

/-- The next step of a file operation. -/
inductive Place where
  /-- `panicb_open`: the interface and its device -/
  | panicbOpen
  /-- `panicb_release` -/
  | panicbRelease
  /-- `panicb_ioctl`: the test of `dev`, and the `switch` -/
  | ioctlCheck (dev : PrivateData) (cmd : BitVec 32)
  /-- `spin_lock_irqsave` -/
  | ioctlLock
  /-- `dev->button` -/
  | ioctlButton
  /-- `spin_unlock_irqrestore` -/
  | ioctlUnlock (button : ℕ)
  /-- `copy_to_user` -/
  | ioctlCopy (button : ℕ)

/-- What a step uses of the objects. -/
def Place.uses : Place → List Object
  | ioctlLock | ioctlButton | ioctlUnlock _ => [.dev]
  | panicbOpen | panicbRelease | ioctlCheck _ _ | ioctlCopy _ => []

/-- Where a step leads, by what it finds. -/
def Place.next : Place → ℕ → Next Place PrivateData
  | panicbOpen, 0 => .ret enodev
  | panicbOpen, _ + 1 => .opened (some ())
  | panicbRelease, _ => .ret 0
  | ioctlCheck none _, _ => .ret enodev
  | ioctlCheck (some ()) cmd, _ => if cmd = 0 then .goto ioctlLock else .ret einval
  | ioctlLock, _ => .goto ioctlButton
  | ioctlButton, button => .goto (ioctlUnlock button)
  | ioctlUnlock button, _ => .goto (ioctlCopy button)
  | ioctlCopy _, uncopied => .ret (if uncopied ≠ 0 then efault else 0)

/-- `panicb_fops`, as the table of the library. -/
def fops : Fops Op Place PrivateData where
  openEntry := .panicbOpen
  entry := .ioctlCheck
  releaseEntry := fun _ => .panicbRelease
  next := Place.next

/-! ## Probe and disconnect

Both functions in the order of the source, the four frees of the `error` label and of
`panicb_disconnect` included. Each object has its own step at which it is allocated, and
another at which it is freed. -/

/-- What the USB core does next with the interface. -/
inductive Driver where
  /-- `panicb_probe`: `kzalloc` -/
  | kzalloc
  /-- `usb_get_dev` -/
  | getDev
  /-- the loop over the endpoints -/
  | endpoints
  /-- the `kmalloc` of the buffer -/
  | kmalloc
  /-- `usb_alloc_urb` -/
  | allocUrb
  /-- `usb_fill_int_urb` -/
  | fillIntUrb
  /-- `usb_set_intfdata` -/
  | setIntfdata
  /-- `usb_register_dev` -/
  | registerDev
  /-- `usb_submit_urb` -/
  | submitUrb
  /-- it has failed: `usb_deregister_dev` -/
  | deregisterFailed
  /-- the `error` label: this is freed next -/
  | error (o : Object)
  /-- the probe has failed -/
  | failed
  /-- bound, until `panicb_disconnect` is called -/
  | bound
  /-- `panicb_disconnect`: `usb_get_intfdata` -/
  | getIntfdata
  /-- `usb_set_intfdata` -/
  | clearIntfdata (dev : Bool)
  /-- `usb_deregister_dev` -/
  | deregister (dev : Bool)
  /-- `usb_kill_urb` is called -/
  | killUrb
  /-- and waits -/
  | killWait
  /-- this is freed next -/
  | free (o : Object)
  /-- disconnected -/
  | disconnected
  deriving DecidableEq

/-- Between `usb_register_dev` and `usb_deregister_dev`, while the node is there. -/
def Driver.published : Driver → Bool
  | submitUrb | deregisterFailed | bound | getIntfdata | clearIntfdata _ | deregister _ => true
  | _ => false

/-- May the URB be in flight or its callback be running? -/
def Driver.active : Driver → Bool
  | bound | getIntfdata | clearIntfdata _ | deregister _ | killUrb | killWait => true
  | _ => false

/-- Is it past the free of this object? -/
def Driver.released : Driver → Object → Bool
  | error o, o' | free o, o' => o'.rank < o.rank
  | failed, _ | disconnected, _ => true
  | _, _ => false

/-- The interface and all that use it. -/
structure State where
  /-- probe and disconnect -/
  driver : Driver
  /-- the objects -/
  heap : Object → Block
  /-- the `struct usb_panicb` -/
  dev : UsbPanicb
  /-- what is in `int_in_buffer` -/
  intInBuffer : List Byte
  /-- `*int_in_urb` -/
  urb : Urb
  /-- is the interface's `intfdata` not null? -/
  intfdata : Bool
  /-- how often the URB is in flight -/
  flights : ℕ
  /-- the callbacks that are running -/
  callbacks : List Callback
  /-- the files whose open is in progress, which holds `minor_rwsem` -/
  opening : Finset ℕ
  /-- the files -/
  files : ℕ → File Place PrivateData

/-- Before `panicb_probe`: nothing is allocated, in flight or open. -/
def init : State where
  driver := .kzalloc
  heap := fun _ => .null
  dev := .zero
  intInBuffer := []
  urb := ⟨false, 0, 0, 0⟩
  intfdata := false
  flights := 0
  callbacks := []
  opening := ∅
  files := fun _ => .closed

/-- Goes on at another place of probe or disconnect. -/
def State.goto (s : State) (driver : Driver) : State := { s with driver := driver }

/-- An object is allocated, and its pointer set. -/
def State.alloc (s : State) (o : Object) : State :=
  { s with heap := Function.update s.heap o ⟨true, 0⟩ }

/-- And freed, if its pointer is not null. -/
def State.free (s : State) (o : Object) : State :=
  { s with heap := Function.update s.heap o (s.heap o).free }

/-- The loop over the endpoints ends at the first that fits. -/
def UsbPanicb.setEndpoint (dev : UsbPanicb) (ep : UsbEndpointDescriptor) : UsbPanicb :=
  { dev with intInEp := ep.bEndpointAddress, intInSize := usbEndpointMaxp ep }

/-- The test of `int_in_size`, which makes room for a whole report. -/
def UsbPanicb.raiseSize (dev : UsbPanicb) : UsbPanicb :=
  if dev.intInSize < reportSize then { dev with intInSize := reportSize } else dev

/-- A step of probe or disconnect; what can fail succeeds if `ok`. The interface
has the endpoints `eps`, and `kmalloc` finds `fresh` in its memory. -/
def driverStep (eps : List UsbEndpointDescriptor) (fresh : ℕ → Byte) (s : State) (ok : Bool) :
    Option State :=
  match s.driver with
  | .kzalloc =>
    if ok = true then some (({ s with dev := .zero }.alloc .dev).goto .getDev)
    else some (s.goto .failed)
  | .getDev => some ((s.alloc .udev).goto .endpoints)
  | .endpoints =>
    match eps.find? usbEndpointIsIntIn with
    | none => some (s.goto (.error .intInUrb))
    | some ep => some ({ s with dev := (s.dev.setEndpoint ep).raiseSize }.goto .kmalloc)
  | .kmalloc =>
    if ok = true then
      let intInBuffer := (List.range s.dev.intInSize).map fresh
      some (({ s with intInBuffer := intInBuffer }.alloc .intInBuffer).goto .allocUrb)
    else some (s.goto (.error .intInUrb))
  | .allocUrb =>
    if ok = true then some ((s.alloc .intInUrb).goto .fillIntUrb)
    else some (s.goto (.error .intInUrb))
  | .fillIntUrb => some ({ s with urb := ⟨true, s.dev.intInSize, 0, 0⟩ }.goto .setIntfdata)
  | .setIntfdata => some ({ s with intfdata := true }.goto .registerDev)
  | .registerDev =>
    if ok = true then some (s.goto .submitUrb) else some (s.goto (.error .intInUrb))
  | .submitUrb =>
    if ok = true then some ({ s with flights := s.flights + 1 }.goto .bound)
    else some (s.goto .deregisterFailed)
  | .deregisterFailed => if s.opening = ∅ then some (s.goto (.error .intInUrb)) else none
  | .error o =>
    match o.next with
    | some o' => some ((s.free o).goto (.error o'))
    | none => some ((s.free o).goto .failed)
  | .failed => none
  | .bound => some (s.goto .getIntfdata)
  | .getIntfdata => some (s.goto (.clearIntfdata s.intfdata))
  | .clearIntfdata dev => some ({ s with intfdata := false }.goto (.deregister dev))
  | .deregister dev =>
    if s.opening = ∅ then
      if dev = true then some (s.goto .killUrb) else some (s.goto .disconnected)
    else none
  | .killUrb => some (s.goto .killWait)
  | .killWait => if s.flights = 0 ∧ s.callbacks = [] then some (s.goto (.free .intInUrb)) else none
  | .free o =>
    match o.next with
    | some o' => some ((s.free o).goto (.free o'))
    | none => some ((s.free o).goto .disconnected)
  | .disconnected => none

/-! ## Everybody together

The USB core calls the driver, completes the URB and runs its callbacks; users open the
node and make calls. What is assumed of the core is in the conditions of the steps: a
completion needs an URB in flight, and `usb_kill_urb` returns when there is none and no
callback. -/

/-- What happens next, by whoever does it. -/
inductive Act where
  /-- a step of probe or disconnect -/
  | driver (ok : Bool)
  /-- the URB completes with these bytes -/
  | complete (status : Int) (data : List Byte)
  /-- a step of the `i`-th callback; a submission is accepted if `ok` -/
  | callback (i : ℕ) (ok : Bool)
  /-- a user -/
  | user (a : FileAct Op)

/-- A completion of the URB, which starts a callback. -/
def completeStep (s : State) (status : Int) (data : List Byte) : Option State :=
  if 0 < s.flights ∧ data.length ≤ s.urb.transferBufferLength then
    some { s with
      flights := s.flights - 1
      urb := { s.urb with status := status, actualLength := data.length }
      intInBuffer := memcpy s.intInBuffer data data.length
      callbacks := s.callbacks ++ [.start] }
  else none

/-- The `i`-th callback goes on at another place. -/
def State.callbackGoto (s : State) (i : ℕ) (p : Callback) : State :=
  { s with callbacks := s.callbacks.set i p }

/-- A step of a callback; a submission may be refused. -/
def callbackStep (s : State) (i : ℕ) (ok : Bool) : Option State :=
  s.callbacks[i]?.map fun
    | .start => s.callbackGoto i s.urb.switch
    | .lock => s.callbackGoto i .report
    | .report =>
      { s with dev := s.dev.report s.intInBuffer s.urb.actualLength }.callbackGoto i .unlock
    | .unlock => s.callbackGoto i .prInfo
    | .prInfo => s.callbackGoto i .submit
    | .submit =>
      if ok = true ∧ s.driver ≠ .killWait then
        { s with flights := s.flights + 1 }.callbackGoto i .ret
      else s.callbackGoto i .ret
    | .ret => { s with callbacks := s.callbacks.eraseIdx i }

/-- Can the step find this? An open finds the device where `intfdata` is set, and an ioctl
finds the button as it is. -/
def Place.finds (s : State) : Place → ℕ → Bool
  | panicbOpen, dev => dev = 0 || s.intfdata
  | ioctlButton, button => button = s.dev.button.toNat
  | _, _ => true

/-- What a user does to the files of the node. -/
def userStep (s : State) (a : FileAct Op) : Option State :=
  match a with
  | .openFile f =>
    if s.driver.published = true then
      (fops.step s.files a).map fun files =>
        { s with files := files, opening := insert f s.opening }
    else none
  | .resume f _ ret =>
    if (Fops.resumed s.files a).all (fun p => p.finds s ret) = true then
      (fops.step s.files a).map fun files =>
        { s with files := files, opening := s.opening.erase f }
    else none
  | .call _ _ | .release _ =>
    (fops.step s.files a).map fun files => { s with files := files }

/-- One step of the core, a callback or a user. -/
def step (eps : List UsbEndpointDescriptor) (fresh : ℕ → Byte) (s : State) : Act → Option State
  | .driver ok => driverStep eps fresh s ok
  | .complete status data => completeStep s status data
  | .callback i ok => callbackStep s i ok
  | .user a => userStep s a

/-- One interface, with its driver and all who use it. -/
def device (eps : List UsbEndpointDescriptor) (fresh : ℕ → Byte) : Lts State Act where
  init := init
  step := step eps fresh

end Panicb

end KernelDrvLearn
