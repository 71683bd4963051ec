import Nsq.Deflate.Inflater
import Nsq.Failure
import Nsq.Frame.Source
import Nsq.Session.Settings
import Nsq.Session.Terms

/-!
# Exchanges before messages flow

Before messages flow, client and daemon exchange commands for frames, one at a time, over a
`Wire`: what the daemon will say, what was sent so far, and whether sending works. `identify`
settles the terms, `upgrade` switches to compression and `authenticate` presents the secret. A
daemon of old answers the settings with a bare `OK`, which grants no terms.
-/

namespace Nsq

/-- Whether octets can be sent. -/
inductive Outlet where
  /-- They can. -/
  | usable
  /-- There is nothing to send them over. -/
  | absent
  /-- They are taken and then refused as a whole. -/
  | refusing
deriving DecidableEq, Repr

/-- A connection before messages flow over it. -/
structure Wire where
  /-- What the daemon will say. -/
  input : Source
  /-- What was sent. -/
  sent : Octets := []
  /-- Whether more can be sent. -/
  outlet : Outlet := .usable
  /-- The reader of what the daemon says, once that is compressed. -/
  inflater : Option Deflate.Inflater := none
  /-- How much of what was sent is not compressed, once the rest is. -/
  plain : Option Nat := none

namespace Wire

/-- Sends a command as a whole. -/
def send (c : Command) (w : Wire) : Except IoFault Unit × Wire :=
  match w.outlet with
  | .absent => (.error .notConnected, w)
  | .refusing => (.error (if c.fits then .refusedWrite else .oversizeBody), w)
  | .usable =>
    match c.encode with
    | .error fault => (.error fault, w)
    | .ok octets => (.ok (), { w with sent := w.sent ++ octets })

/-- Whether what the daemon says ends in octets that make no sense. -/
def isCorrupt (w : Wire) : Bool := w.inflater.any Deflate.Inflater.isCorrupt

/-- Receives a frame. -/
def receive (maxSize : Nat) (w : Wire) : Except IoFault Frame × Wire :=
  match w.input.readFrame maxSize with
  | (.error .shortRead, input) =>
    (.error (if w.isCorrupt then .corruptStream else .shortRead), { w with input := input })
  | (frame, input) => (frame, { w with input := input })

/-- From here on both sides compress what they say. -/
def compress (w : Wire) : Wire :=
  let (said, inflater) := ({} : Deflate.Inflater).push w.input.octets
  { w with input := ⟨[said]⟩, inflater := some inflater, plain := some w.sent.length }

/-- Sends a command and receives the frame that answers it. -/
def ask (maxSize : Nat) (c : Command) (w : Wire) : Except IoFault Frame × Wire :=
  match w.send c with
  | (.error fault, w) => (.error fault, w)
  | (.ok (), w) => w.receive maxSize

end Wire

namespace Session

/-- Reads the answer to the settings: terms, or none from a daemon of old. -/
def termsOf (f : Frame) : Except Refusal (Option Terms) :=
  if f.kind = .error then .error (.refused f.data.lossyText)
  else if f.data = Frame.okData then .ok none
  else
    match Terms.ofOctets f.data with
    | some t => .ok (some t)
    | none => .error .malformedTerms

/-- Settles the terms of a session. -/
def identify (maxSize : Nat) (s : Settings) (w : Wire) :
    Except Failure (Option Terms) × Wire :=
  match w.ask maxSize s.command with
  | (.error fault, w) => (.error (.identify (.io fault)), w)
  | (.ok f, w) =>
    match termsOf f with
    | .ok t => (.ok t, w)
    | .error cause => (.error (.identify cause), w)

/-- Reads the confirmation of the switch to compression. -/
def confirmUpgrade (f : Frame) : Except Refusal Unit :=
  if f.kind = .error ∨ f.data ≠ Frame.okData then .error (.upgradeRefused f.data.lossyText)
  else .ok ()

/-- Switches to compression, which the daemon confirms in compressed form. -/
def upgrade (maxSize : Nat) (w : Wire) : Except Failure Unit × Wire :=
  match w.compress.receive maxSize with
  | (.error fault, w) => (.error (.identify (.upgradeFault fault)), w)
  | (.ok f, w) =>
    match confirmUpgrade f with
    | .ok () => (.ok (), w)
    | .error cause => (.error (.identify cause), w)

/-- Reads the answer to a secret. -/
def grantOf (f : Frame) : Except Refusal Grant :=
  if f.kind = .error then .error (.refused f.data.lossyText)
  else
    match Grant.ofOctets f.data with
    | some g => .ok g
    | none => .error .malformedGrant

/-- Presents a secret. -/
def authenticate (maxSize : Nat) (secret : String) (w : Wire) :
    Except Failure Grant × Wire :=
  match w.ask maxSize (.auth secret) with
  | (.error fault, w) => (.error (.io fault), w)
  | (.ok f, w) =>
    match grantOf f with
    | .ok g => (.ok g, w)
    | .error cause => (.error (.auth cause), w)

end Session

end Nsq
