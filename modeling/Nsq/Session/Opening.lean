import Nsq.Deflate.Stored
import Nsq.Session.Exchange

/-!
# Opening a session

A session opens in stages: the client greets, the terms are settled, both sides switch to
compression if the terms say so, and the client presents its secret if the terms ask for one. With a
daemon of old the session is open once it has answered the settings.

`Session.negotiate` runs all stages against what the daemon says. Where more is said later it can be
run again from the start: what it sends then begins with what it has sent before. A connection opens
one session in its life (`Session.connect`).
-/

namespace Nsq

namespace Session

/-- The octets by which a client makes its version of the protocol known. -/
def greeting : Octets := Octets.ofString "  V2"

/-- Greets the daemon. -/
def greet (w : Wire) : Wire := { w with sent := w.sent ++ greeting }

/-- Greets and settles the terms. -/
def settle (c : Config) (w : Wire) : Except Failure (Option Terms) × Wire :=
  identify c.maxFrame (Settings.ofConfig c) (greet w)

/-- Switches to compression if the terms say so. -/
def fitCompression (c : Config) (t : Terms) (w : Wire) : Except Failure Unit × Wire :=
  if t.deflate then upgrade c.maxFrame w else (.ok (), w)

/-- Presents the secret if the terms ask for one. A secret that nobody asks for is kept. -/
def prove (c : Config) (t : Terms) (w : Wire) : Except Failure Unit × Wire :=
  if t.authRequired then
    match c.authSecret with
    | none => (.error (.auth .secretRequired), w)
    | some secret =>
      match authenticate c.maxFrame secret w with
      | (.ok _, w) => (.ok (), w)
      | (.error failure, w) => (.error failure, w)
  else (.ok (), w)

/-- Opens a session. -/
def negotiate (c : Config) (w : Wire) : Except Failure (Option Terms) × Wire :=
  match settle c w with
  | (.error failure, w) => (.error failure, w)
  | (.ok none, w) => (.ok none, w)
  | (.ok (some t), w) =>
    match fitCompression c t w with
    | (.error failure, w) => (.error failure, w)
    | (.ok (), w) =>
      match prove c t w with
      | (.error failure, w) => (.error failure, w)
      | (.ok (), w) => (.ok (some t), w)

/-- Opens the session of a connection over a wire. The connection keeps the first wire over which it
has greeted a daemon, whatever came of that; over another one it greets, and lets go. -/
def connect (c : Config) (kept : Bool) (w : Wire) : Except Failure (Option Terms) × Wire :=
  if kept then (.error .alreadyConnected, greet w) else negotiate c w

/-- Whether a session could not be opened for the sole reason that the daemon has not said enough
yet. -/
def isUnderWay {α : Type} : Except Failure α → Bool
  | .error (.identify (.io .shortRead)) | .error (.identify (.upgradeFault .shortRead))
  | .error (.io .shortRead) => true
  | _ => false

end Session

namespace Wire

/-- What was sent, as it travels. -/
def travelling (w : Wire) : Octets :=
  match w.plain with
  | none => w.sent
  | some n => w.sent.take n ++ Deflate.stored (w.sent.drop n)

end Wire

end Nsq
