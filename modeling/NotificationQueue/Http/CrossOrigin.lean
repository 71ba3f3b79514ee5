import NotificationQueue.Http.Message
import NotificationQueue.Settings.Server

/-! Headers that tell browsers which other sites may call. Every response has some; a question about
methods is answered without asking any route. -/
namespace NotificationQueue.Http

def joined (names : List String) : String :=
  String.intercalate "," names

/-- The settings can be served: a list that is a lone asterisk would name everything, which does not
go together with credentials. -/
def isServable (c : CrossOrigin) : Bool :=
  joined c.methods ≠ "*" && joined c.headers ≠ "*"

/-- The origin that a response allows: the caller's own, if it may call. -/
def allowedOrigin? (c : CrossOrigin) (origin : Option (List UInt8)) : Option (List UInt8) :=
  if c.allowsAny then origin
  else origin.filter fun o => c.originValues.any fun v => Utf8.encode v.toList = o

def sharedHeaders (c : CrossOrigin) (origin : Option (List UInt8)) :
    List (String × List UInt8) :=
  let text (s : String) : List UInt8 := Utf8.encode s.toList
  ("access-control-allow-credentials", text "true") ::
    ("vary", text "origin, access-control-request-method, access-control-request-headers") ::
    ((allowedOrigin? c origin).map ("access-control-allow-origin", ·)).toList

def preflight (c : CrossOrigin) : Response :=
  let listed (name : String) (names : List String) (r : Response) : Response :=
    if names = [] then r else r.addHeader name (joined names)
  listed "access-control-allow-headers" c.headers
    (listed "access-control-allow-methods" c.methods
      ((Response.bare 200).addHeader "access-control-max-age" "3600"))

end NotificationQueue.Http
