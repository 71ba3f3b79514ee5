import NotificationQueue.Http.Api
import NotificationQueue.Http.Document
import NotificationQueue.Service.Basic

/-! Exchanges: a request together with the task of the service that works on it, and the response
once there is one. -/
namespace NotificationQueue.Http

inductive Exchange where
  | answered (r : Response)
  | polling (task : Nat) (message : String)
  | publishing (publication : Service.Publication) (message : String)
  | probing (task : Nat)

namespace Exchange

/-- Starts what a request leads to. There is none for a long poll whose deadline the timer cannot
tell. -/
def start? (api : Api) (s : Service) (r : Request) : Option (Service × Exchange) :=
  match api.plan s.wall r with
  | .respond response => some (s, .answered (api.finish r response))
  | .document => some (s, .answered (api.finish r (.json 200 document)))
  | .poll request message =>
    (s.poll? request false).map fun (s, task) => (s, .polling task message)
  | .publish draft message =>
    let (s, publication) := s.submit draft
    some (s, .publishing publication message)
  | .probe =>
    let (s, task) := s.probe
    some (s, .probing task)

def task? : Exchange → Option Nat
  | .answered _ => none
  | .polling task _ | .probing task => some task
  | .publishing publication _ =>
    match publication.delivery with
    | .dispatched => none
    | .written => some publication.task

def response? (api : Api) (s : Service) (r : Request) : Exchange → Option Response
  | .answered response => some response
  | .polling task message => (s.pollResult? task).map fun x => api.finish r (pollResponse message x)
  | .publishing publication message =>
    (s.publishResult? publication).map fun x => api.finish r (publishResponse message x)
  | .probing task => (s.outcome? task).map fun x => api.finish r (healthResponse x)

end Exchange

end NotificationQueue.Http
