import NotificationQueue.Event

/-! Subjects: whose queue an event goes to. Each user has one, and all administrators share one. -/
namespace NotificationQueue

inductive Subject where
  | user (id : String)
  | admin
  deriving DecidableEq, Inhabited

namespace Subject

def userKeyStart : String := "poll:user:"

def adminKey : String := "poll:admin:events"

/-- The user's queue where a user is named, and the administrators' otherwise. -/
def forRecipient : Option String → Subject
  | some id => if id = "" then .admin else .user id
  | none => .admin

/-- The queue that holds a user's events of one type: only order updates for customers go to the
customers themselves. -/
def forType (type : EventType) (user : Option String) : Subject :=
  match type with
  | .customerOrderStatus => forRecipient user
  | _ => .admin

def isAdmin : Subject → Bool
  | .admin => true
  | .user _ => false

def key : Subject → String
  | .user id => userKeyStart ++ id
  | .admin => adminKey

end Subject

end NotificationQueue
