import MailCampaign.Engine.Launch
import MailCampaign.Http.Server
import MailCampaign.Json.Print

/-!
# Requests and responses as text

A request stands on a line as a JSON object that tells when it was made. The response is a JSON
object as well. Timers that are due when a request was made fire before it is answered.
-/

namespace MailCampaign.Http

/-- A request with the time when it was made. -/
structure DatedRequest where
  time : Instant
  request : Request

def DatedRequest.decoder : Json.Decoder DatedRequest :=
  .record ["time", "method", "target", "headers", "body"] fun s =>
    (fun time method target headers body => ⟨time, method, target, Table.toList headers, body⟩) <$>
      s.required "time" Instant.decoder <*> s.required "method" .string
      <*> s.required "target" .string <*> s.withDefault "headers" (.table .string) Table.empty
      <*> s.withDefault "body" .string ""

def Content.toJson : Content → Json
  | nothing => .null
  | json j => j
  | pixel => .str "pixel"
  | location url => .str url

def Response.json (r : Response) : Json :=
  .obj [("status", .nat r.status), ("content", r.content.toJson)]

/-- Where requests are answered. -/
structure Site (σ : Type) where
  server : Server
  services : Services σ
  settings : FlowSettings

namespace Site

variable {σ : Type}

/-- Answers a request after the timers that are due have fired. -/
def answer (site : Site σ) (r : DatedRequest) : Host.Task σ Response := do
  let w ← Host.Task.world
  tryCatch (Host.Task.drain site.services site.settings.batchSize r.time (w.cursors.size + 1))
    fun _ => pure ()
  tryCatch (Host.Task.engine (handle site.server site.services r.request r.time))
    fun _ => return ⟨500, .nothing⟩

/-- The response to a line, and the host and the time after it. A line that is no request, or one
that cannot be made, is answered as a bad request. -/
def answerLine (site : Site σ) (line : String) (h : Host σ) (now : Instant) :
    Response × Host σ × Instant :=
  match Json.readText DatedRequest.decoder line with
  | .fault _ => (⟨400, .nothing⟩, h, now)
  | .value r =>
    if r.request.legal then
      match (site.answer r).run.run h with
      | (.ok response, h) => (response, h, r.time)
      | (.error _, h) => (⟨500, .nothing⟩, h, r.time)
    else (⟨400, .nothing⟩, h, r.time)

end Site

end MailCampaign.Http
