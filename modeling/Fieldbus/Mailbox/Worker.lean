import Fieldbus.Mailbox.Turn

/-!
# Callers that wait

A worker runs turns of a mailbox, one whenever a caller wakes it and one each poll interval, while
a caller waits for a reply or for a message. Time passes only while somebody waits.
-/

namespace Fieldbus

structure Worker (σ : Type) where
  mailbox : Mailbox
  device : σ
  now : Nat := 0
  running : Bool := true

namespace Worker

variable {σ : Type}

def interval (w : Worker σ) : Nat := max w.mailbox.config.pollInterval 1

/-- Runs one turn and lets a poll interval pass. A worker whose mailbox is closed ends. -/
def turn (t : Transport σ) (w : Worker σ) : Worker σ :=
  match w.mailbox.turn t w.now w.device with
  | (result, mailbox, device) =>
      { w with
        mailbox
        device
        now := w.now + w.interval
        running := match result with
          | .error .closed => false
          | _ => w.running }

def await (t : Transport σ) (h : Handle) : Nat → Worker σ → Except Error Reply × Worker σ
  | 0, w =>
      let (result, mailbox) := w.mailbox.settle h
      (result, { w with mailbox })
  | fuel + 1, w =>
      if (w.mailbox.outcome? h.ticket).isSome || h.deadline ≤ w.now then
        let (result, mailbox) := w.mailbox.settle h
        (result, { w with mailbox })
      else
        await t h fuel (w.turn t)

def turnsWithin (w : Worker σ) (timeout : Nat) : Nat := timeout / w.interval + 2

def request (t : Transport σ) (w : Worker σ) (p : Protocol) (address : UInt16) (payload : Bytes)
    (expectsResponse : Bool) (timeout : Nat) : Except Error Reply × Worker σ :=
  match w.mailbox.submit p address payload expectsResponse (w.now + timeout) with
  | (.error cause, mailbox) => (.error cause, { w with mailbox })
  | (.ok h, mailbox) => await t h (w.turnsWithin timeout) { w with mailbox }

def write (t : Transport σ) (w : Worker σ) (p : Protocol) (address : UInt16) (payload : Bytes)
    (timeout : Nat) : Except Error UInt16 × Worker σ :=
  let (result, w) := w.request t p address payload false timeout
  (result.map Reply.workCounter, w)

def transceive (t : Transport σ) (w : Worker σ) (p : Protocol) (address : UInt16)
    (payload : Bytes) (timeout : Nat) : Except Error Message × Worker σ :=
  let (result, w) := w.request t p address payload true timeout
  (result.bind Reply.toMessage, w)

def readUntil (t : Transport σ) (p : Protocol) (deadline : Nat) :
    Nat → Worker σ → Except Error Message × Worker σ
  | 0, w => (.error .timeout, w)
  | fuel + 1, w =>
      match w.mailbox.requestRead p with
      | (.error cause, mailbox) => (.error cause, { w with mailbox })
      | (.ok (some message), mailbox) => (.ok message, { w with mailbox })
      | (.ok none, mailbox) =>
          if deadline ≤ w.now then
            (.error .timeout, { w with mailbox := mailbox.countTimeout })
          else
            readUntil t p deadline fuel ({ w with mailbox }.turn t)

def read (t : Transport σ) (w : Worker σ) (p : Protocol) (timeout : Nat) :
    Except Error Message × Worker σ :=
  readUntil t p (w.now + timeout) (w.turnsWithin timeout) w

/-- Closes the mailbox and returns the number of buffers held elsewhere. The worker ends with its
next turn. -/
def close (w : Worker σ) : Nat × Worker σ :=
  let (held, mailbox) := w.mailbox.close
  (held, { w with mailbox, running := false })

end Worker

end Fieldbus
