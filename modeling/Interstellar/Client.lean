import Interstellar.Pack
import Interstellar.Target.Eval

/-!
# Talking to the contest server

`Client.call prompt` sends a prompt and evaluates the reply:

* the empty prompt sends nothing and gives the empty string;
* a prompt that starts with a backtick is sent as it stands, without the backtick (it is
  already program text);
* any other prompt is sent as `Pack.attempt` writes it.

The body sent and the raw reply are printed; the reply is read as program text and run as
compiled code (`Term.run`).
-/

namespace Interstellar

namespace Client

/-- Send a prompt and evaluate the server's reply. -/
def call (prompt : String) : Run Outcome := do
  match prompt.toList with
  | [] => pure (.str "")
  | c :: rest =>
    let body ← if c == '`' then pure (String.ofList rest) else Pack.attempt prompt
    Run.say ("encoded prompt: " ++ body)
    let reply ← Run.post body
    Run.say ("raw response: " ++ reply)
    let t ← Run.lift (Term.ofText reply)
    Run.lift t.run

end Client

end Interstellar
