import Snowbank.Proofs.Expr.Renaming
import Snowbank.Proofs.Expr.Suited
import Snowbank.Proofs.Expr.Totals
import Snowbank.Proofs.Filter.Complement
import Snowbank.Proofs.Plan.Closed
import Snowbank.Proofs.Query.Reach
import Snowbank.Proofs.Response.Cube
import Snowbank.Proofs.Response.Struct
import Snowbank.Proofs.Snowflake.Restart
import Snowbank.Proofs.Sql.Beneath
import Snowbank.Proofs.Sql.Fragments
import Snowbank.Proofs.Store.Apart
import Snowbank.Proofs.Store.Flushing
import Snowbank.Proofs.Store.InStep
import Snowbank.Proofs.Store.Records
import Snowbank.Proofs.Worker.Failure
import Snowbank.Proofs.Worker.Order
import Snowbank.Proofs.Written
import Snowbank.Service.Config
